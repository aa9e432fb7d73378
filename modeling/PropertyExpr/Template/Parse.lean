import PropertyExpr.Expr.Parser
import PropertyExpr.Template.Basic
import PropertyExpr.Template.Piece
/-!
# Parsing a template: `template::parse_with_warnings`

Parsing never fails. A block that is no expression is kept, braces included, as part of the text around it,
and reported as a warning. `Part.ofPieces` decides each block by itself; `Part.segments` then joins
neighbouring texts.
-/
namespace PropertyExpr

/-- A block that was kept as text. -/
structure Warning where
  /-- The block, braces included. -/
  block : String
  /-- Where the block starts. -/
  location : Location
  /-- Why its inside is no expression. -/
  cause : SyntaxError
deriving DecidableEq, Repr

namespace Warning

def message (w : Warning) : String := "code block kept as literal text: " ++ w.cause.message

end Warning

/-- A piece of a template once its block has been parsed. -/
inductive Template.Part where
  | text (content : List Char)
  | code (expr : Expr)
  | kept (warning : Warning)
deriving DecidableEq, Repr

namespace Template

namespace Part

/-- The part that a piece is, `location` being the start of the piece (`Composer::push`). -/
def ofPiece (location : Location) : Piece → Part
  | .text _ content => text content
  | .block start inner =>
    match Expr.parseAt ⟨inner, location.after Piece.openBraces⟩ with
    | .ok e => code e
    | .error cause => kept ⟨String.ofList (Piece.block start inner).source, location, cause⟩

/-- The parts that pieces are, of which the first starts at `location`. -/
def ofPieces (location : Location) : List Piece → List Part
  | [] => []
  | piece :: pieces => ofPiece location piece :: ofPieces (location.after piece.source) pieces

/-- The segments of parts, of which `before` is the text that has not ended yet (`Composer::push_code` and
`Composer::push_fallback`). -/
def segmentsAfter (before : List Char) : List Part → List Segment
  | [] => textSegment before
  | text content :: parts => segmentsAfter (before ++ content) parts
  | kept warning :: parts => segmentsAfter (before ++ warning.block.toList) parts
  | code e :: parts => textSegment before ++ .code e :: segmentsAfter [] parts
where
  /-- A text, unless it would be empty. -/
  textSegment : List Char → List Segment
    | [] => []
    | content => [.text (String.ofList content)]

/-- The segments of parts: neighbouring texts are one, and empty ones are none. -/
def segments (parts : List Part) : List Segment := segmentsAfter [] parts

def warning? : Part → Option Warning
  | kept warning => some warning
  | _ => none

end Part

/-- The parts of a template source. -/
def parts (source : List Char) : List Part := Part.ofPieces Location.origin (Piece.split source)

/-- The template that `source` is, and a warning for each block kept as text (`parse_with_warnings`). -/
def parseWithWarnings (source : String) : Template × List Warning :=
  let parts := parts source.toList
  (ofSegments (Part.segments parts), parts.filterMap Part.warning?)

/-- The template that `source` is (`template::parse`). -/
def parse (source : String) : Template := (parseWithWarnings source).1

end Template

end PropertyExpr
