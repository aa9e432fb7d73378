import PropertyExpr.Expr.Json
/-!
# Templates: `parser::ast::Template`

A parsed template is a text, a single expression, or a mix of both. `Template.ofSegments` is the one way in
which the parser makes one; the JSON form is a string, a tree, or an array of both.
-/
namespace PropertyExpr

inductive Segment where
  | text (content : String)
  | code (expr : Expr)
deriving DecidableEq, Repr

inductive Template where
  /-- Text only. -/
  | literal (content : String)
  /-- One expression and nothing around it. -/
  | single (expr : Expr)
  | composite (segments : List Segment)
deriving DecidableEq, Repr

namespace Segment

/-- The references of a segment from left to right. -/
def references : Segment → List Reference
  | text _ => []
  | code e => e.references

def written : Segment → Json
  | text s => .string s
  | code e => e.written

def toJson : Segment → Json
  | text s => .string s
  | code e => e.toJson

/-- Every string inside a composite is text. -/
def ofJson : Json → Except TreeError Segment
  | .string s => .ok (.text s)
  | j => (Expr.ofJson j).map .code

end Segment

namespace Template

/-- The template with the given segments, of which none is an empty text and no two texts are neighbours
(`Composer::finish`). -/
def ofSegments : List Segment → Template
  | [] => literal ""
  | [.text s] => literal s
  | [.code e] => single e
  | segments => composite segments

/-- The segments of a template; an empty text has none. -/
def segments : Template → List Segment
  | literal s => if s = "" then [] else [.text s]
  | single e => [.code e]
  | composite segments => segments

/-- The references of a template from left to right. -/
def references : Template → List Reference
  | literal _ => []
  | single e => e.references
  | composite segments => segments.flatMap Segment.references

/-- A template as it is written, the type of each node first (`Template::serialize`). -/
def written : Template → Json
  | literal s => .string s
  | single e => e.written
  | composite segments => .array (segments.map Segment.written)

/-- A template with its keys in order (`Template::to_json`). -/
def toJson : Template → Json
  | literal s => .string s
  | single e => e.toJson
  | composite segments => .array (segments.map Segment.toJson)

/-- The segments that the items of an array are, or what is wrong with the first that is none. -/
def segmentsOfJson : List Json → Except TreeError (List Segment)
  | [] => .ok []
  | j :: items =>
    match Segment.ofJson j with
    | .error e => .error e
    | .ok segment =>
      match segmentsOfJson items with
      | .error e => .error e
      | .ok segments => .ok (segment :: segments)

/-- The template that a value is (`Template::from_json`). -/
def ofJson : Json → Except TreeError Template
  | .string s => .ok (.literal s)
  | .array items => (segmentsOfJson items).map .composite
  | j => (Expr.ofJson j).map .single

/-- The template that a JSON text is (`Template::deserialize`). -/
def ofText (s : String) : Except (Json.TextError TreeError) Template := Json.readAs ofJson s

end Template

end PropertyExpr
