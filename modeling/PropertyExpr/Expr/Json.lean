import PropertyExpr.Error
import PropertyExpr.Expr.Basic
import PropertyExpr.Json.Reader
import PropertyExpr.Json.Writer
/-!
# Expressions as JSON: `Expr::to_json` and `Expr::from_json`

Literals are bare numbers and strings, a reference is an object of type `ref`, and an operation is an object
whose type is its operator. `Expr.written` is the form in which a tree is written, `Expr.toJson` the same value
with its keys in order, and `Expr.ofJson` reads either, whatever further keys an object has.
-/
namespace PropertyExpr

/-- A reference, its type first. -/
def Reference.written (r : Reference) : Json :=
  .object [("type", .string "ref"), ("name", .string r.name), ("rank", .int r.rank.toInt),
    ("field", .string r.field)]

/-- A reference with its keys in order (`Expr::to_json`). -/
def Reference.toJson (r : Reference) : Json :=
  .object [("field", .string r.field), ("name", .string r.name), ("rank", .int r.rank.toInt),
    ("type", .string "ref")]

namespace Expr

/-- A tree as it is written, the type of each node first (`Expr::serialize`). -/
def written : Expr → Json
  | number n => .int n.toInt
  | string s => .string s
  | ref r => r.written
  | binary op left right =>
    .object [("type", .string op.symbol), ("left", left.written), ("right", right.written)]

/-- A tree with its keys in order (`Expr::to_json`). -/
def toJson : Expr → Json
  | number n => .int n.toInt
  | string s => .string s
  | ref r => r.toJson
  | binary op left right =>
    .object [("left", left.toJson), ("right", right.toJson), ("type", .string op.symbol)]

/-- The reference that an object with the given fields is (`reference_from_json`). Its attributes need the right types
only. -/
def referenceOfFields (fields : List (String × Json)) : Except TreeError Expr :=
  let invalid (reason : String) := TreeError.invalid (Json.object fields).text reason
  match (Json.field? fields "name").bind Json.string? with
  | none => .error (invalid "reference name must be a string")
  | some name =>
    match (Json.field? fields "rank").bind Json.int64? with
    | none => .error (invalid "reference rank must be an integer")
    | some rank =>
      match (Json.field? fields "field").bind Json.string? with
      | none => .error (invalid "reference field must be a string")
      | some field => .ok (.ref ⟨name, rank, field⟩)

/-- The type that an object says it has; empty if it says none. -/
def tag (fields : List (String × Json)) : String :=
  ((Json.field? fields "type").bind Json.string?).getD ""

mutual
/-- The tree that a value is (`Expr::from_json`). -/
def ofJson : Json → Except TreeError Expr
  | .int n =>
    match (Json.int n).int64? with
    | some value => .ok (.number value)
    | none => .error (.unrecognized (Json.int n).text)
  | .string s => .ok (.string s)
  | .object fields =>
    if tag fields = "ref" then referenceOfFields fields
    else match Operator.ofSymbol? (tag fields) with
      | none => .error (.unrecognized (Json.object fields).text)
      | some op =>
        match operand "left" fields with
        | .error e => .error e
        | .ok left =>
          match operand "right" fields with
          | .error e => .error e
          | .ok right => .ok (.binary op left right)
  | .null => .error (.unrecognized Json.null.text)
  | .bool b => .error (.unrecognized (Json.bool b).text)
  | .float x => .error (.unrecognized (Json.float x).text)
  | .array items => .error (.unrecognized (Json.array items).text)
/-- The operand under a key; a missing one is shown as `undefined`. -/
def operand (key : String) : List (String × Json) → Except TreeError Expr
  | [] => .error (.unrecognized "undefined")
  | (k, j) :: fields => if k = key then ofJson j else operand key fields
end

/-- The tree that a JSON text is (`Expr::deserialize`). -/
def ofText (s : String) : Except (Json.TextError TreeError) Expr := Json.readAs ofJson s

end Expr

end PropertyExpr
