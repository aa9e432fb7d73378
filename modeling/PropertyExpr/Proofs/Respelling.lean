import PropertyExpr.Proofs.Closing
import PropertyExpr.Proofs.Parts
import PropertyExpr.Proofs.Relocation
import PropertyExpr.Proofs.Reparsing
/-!
# Writing a parsed template and parsing it again

`parse_source` — a parsed template, written with each expression as it is printed, parses as itself, and the blocks
that are no expressions are found again. The template that is written has the layout of the source, with the insides
of some blocks printed anew (`Layout.respelled`): no text moves to the other side of a brace, so blocks open where
they did, and a printed tree has no closing braces outside of its string literals, so they close where they did.
-/
namespace PropertyExpr

/-- A segment as it is written in a template. -/
def Segment.source : Segment → List Char
  | text s => s.toList
  | code e => Piece.openBraces ++ e.print ++ Piece.closeBraces

/-- A template as it is written. -/
def Template.source (t : Template) : String := String.ofList (t.segments.flatMap Segment.source)

/-! ## Printed trees inside of blocks -/

namespace Expr

/-- **A block with a printed tree** closes behind the tree. -/
theorem clean_print (e : Expr) (hrefs : ∀ r ∈ e.references, r.defect? = none) : Piece.Clean e.print := by
  have hlexes : Lexes (e.print ++ []) (e.kinds ++ []) := lexes_print e hrefs (by simp [BreaksOff]) lexes_nil
  rw [List.append_nil] at hlexes
  exact Piece.clean_of_lexes hlexes

/-- What a text is parsed as does not depend on where it stands, apart from what an error marks. -/
theorem parseAt_eq_mapError (inner : List Char) (location : Location) :
    parseAt ⟨inner, location⟩ = (parse inner).mapError (SyntaxError.moved location.offset) :=
  parseAt_moved rfl (Nat.zero_add _).symm

/-! ## Blocks respelled -/

/-- The inside of a block with its tree printed anew, if it has one. -/
def respell (inner : List Char) : List Char :=
  match parse inner with
  | .ok e => e.print
  | .error _ => inner

theorem respell_of_ok {inner : List Char} {e : Expr} (h : parse inner = .ok e) : respell inner = e.print := by
  rw [respell, h]

theorem respell_of_error {inner : List Char} {cause : SyntaxError} (h : parse inner = .error cause) :
    respell inner = inner := by
  rw [respell, h]

theorem encloses_respell {inner : List Char} (h : Piece.Encloses inner) : Piece.Encloses (respell inner) := by
  cases hparse : parse inner with
  | ok e =>
    rw [respell_of_ok hparse]
    exact (clean_print e (bounds_of_parseAt hparse).1).encloses
  | error cause => rwa [respell_of_error hparse]

end Expr

namespace Piece

/-- The stretch with its block respelled. -/
def Stretch.respelled (s : Stretch) : Stretch where
  before := s.before
  inner := Expr.respell s.inner
  opens := s.opens
  encloses := Expr.encloses_respell s.encloses

/-- The layout with its blocks respelled. -/
def Layout.respelled (l : Layout) : Layout := ⟨l.stretches.map Stretch.respelled, l.tail, l.blockless⟩

end Piece

namespace Template.Part

open segmentsAfter (textSegment)

/-- A respelled block is the same part, wherever it stands. -/
theorem bare_ofBlock_respell (pre pre' inner : List Char) :
    (ofBlock pre' (Expr.respell inner)).bare = (ofBlock pre inner).bare := by
  rw [ofBlock, ofBlock, ofPiece, ofPiece, Expr.parseAt_eq_mapError, Expr.parseAt_eq_mapError]
  cases hparse : Expr.parse inner with
  | ok e =>
    obtain ⟨hrefs, hcount, hdepth⟩ := Expr.bounds_of_parseAt hparse
    have hprint : Expr.parse e.print = .ok e := Expr.parseAt_print hrefs hcount hdepth _
    rw [Expr.respell_of_ok hparse, hprint]
    rfl
  | error cause =>
    rw [Expr.respell_of_error hparse, hparse]
    rfl

/-! ## What is written -/

/-- A part as it is written in a template. -/
def source : Part → List Char
  | text content => content
  | code e => Piece.openBraces ++ e.print ++ Piece.closeBraces
  | kept warning => warning.block.toList

theorem flatMap_source_textSegment (before : List Char) : (textSegment before).flatMap Segment.source = before := by
  cases before with
  | nil => rfl
  | cons c before =>
    have hsource : (textSegment (c :: before)).flatMap Segment.source = (String.ofList (c :: before)).toList ++ [] := rfl
    rw [hsource, List.append_nil, String.toList_ofList]

/-- Segments are written as their parts. -/
theorem flatMap_source_segmentsAfter (before : List Char) (parts : List Part) :
    (segmentsAfter before parts).flatMap Segment.source = before ++ parts.flatMap source := by
  induction parts generalizing before with
  | nil =>
    rw [List.flatMap_nil, List.append_nil]
    exact flatMap_source_textSegment before
  | cons part parts ih =>
    rw [List.flatMap_cons, ← List.append_assoc]
    cases part with
    | text content => exact ih _
    | kept warning => exact ih _
    | code e =>
      rw [segmentsAfter, List.flatMap_append, flatMap_source_textSegment, List.flatMap_cons, ih, List.nil_append,
        List.append_assoc]
      rfl

theorem flatMap_source_ofText (cs : List Char) : (ofText cs).flatMap source = cs := by
  cases cs with
  | nil => rfl
  | cons c cs => exact List.append_nil _

theorem source_ofBlock (pre inner : List Char) :
    (ofBlock pre inner).source = Piece.openBraces ++ Expr.respell inner ++ Piece.closeBraces := by
  rw [ofBlock, ofPiece, Expr.parseAt_eq_mapError]
  cases hparse : Expr.parse inner with
  | ok e =>
    rw [Expr.respell_of_ok hparse]
    rfl
  | error cause =>
    rw [Expr.respell_of_error hparse]
    exact String.toList_ofList

end Template.Part

namespace Piece.Layout

open Template (Part)

/-- Blocks that are respelled are the same parts, one by one. -/
theorem map_bare_partsFrom_respelled (tail : List Char) (stretches : List Stretch) (pre pre' : List Char) :
    (partsFrom pre' tail (stretches.map Stretch.respelled)).map Part.bare =
      (partsFrom pre tail stretches).map Part.bare := by
  induction stretches generalizing pre pre' with
  | nil => rfl
  | cons s stretches ih =>
    have hblock := Part.bare_ofBlock_respell (pre ++ s.before) (pre' ++ s.before) s.inner
    rw [List.map_cons, partsFrom, partsFrom, List.map_append, List.map_append, List.map_cons, List.map_cons,
      ih (pre ++ s.source)]
    exact congrArg (fun part => (Part.ofText s.before).map Part.bare ++ part :: _) hblock

/-- The parts of a layout are written as the layout respelled. -/
theorem flatMap_source_partsFrom (tail : List Char) (stretches : List Stretch) (pre : List Char) :
    (partsFrom pre tail stretches).flatMap Part.source =
      (stretches.map Stretch.respelled).flatMap Stretch.source ++ tail := by
  induction stretches generalizing pre with
  | nil => exact Part.flatMap_source_ofText tail
  | cons s stretches ih =>
    have hsource : s.respelled.source = s.before ++ (openBraces ++ Expr.respell s.inner ++ closeBraces) := rfl
    rw [partsFrom, List.flatMap_append, List.flatMap_cons, Part.flatMap_source_ofText, Part.source_ofBlock, ih,
      List.map_cons, List.flatMap_cons, hsource]
    simp only [List.append_assoc]

end Piece.Layout

namespace Template

/-- A template is written with the layout of its source, respelled. -/
theorem toList_source_parse (l : Piece.Layout) (source : String) (h : source.toList = l.source) :
    (parse source).source.toList = l.respelled.source := by
  rw [Template.source, String.toList_ofList, segments_parse, h, l.parts_source, Part.segments,
    Part.flatMap_source_segmentsAfter]
  exact Piece.Layout.flatMap_source_partsFrom l.tail l.stretches []

/-- **A parsed template that is written and parsed again** is the same template, and the same blocks are kept as
text. -/
theorem parse_source (source : String) :
    parse (parse source).source = parse source ∧
    (parseWithWarnings (parse source).source).2.map Warning.block =
      (parseWithWarnings source).2.map Warning.block := by
  obtain ⟨l, hl⟩ := Piece.exists_layout source.toList
  have hwritten := toList_source_parse l source hl.symm
  have hparts : (parts (parse source).source.toList).map Part.bare = (parts source.toList).map Part.bare := by
    rw [hwritten, ← hl, l.parts_source, l.respelled.parts_source]
    exact Piece.Layout.map_bare_partsFrom_respelled l.tail l.stretches [] []
  constructor
  · exact congrArg ofSegments (Part.segments_congr hparts)
  · exact Part.map_block_congr hparts

end Template

end PropertyExpr
