import PropertyExpr.Json.Document
/-!
# JSON values from text: `serde_json::from_str`

A document is a value if its numbers are in range, its strings name whole characters, and at most `maxDepth`
arrays and objects are open at once.
-/
namespace PropertyExpr.Json

/-- How many arrays and objects may be open at once. -/
def maxDepth : Nat := 127

/-- The characters that the parts of a string stand for. A unit that is half a character must stand before or
behind its other half. -/
def decodeUnits? : List StringUnit → Option (List Char)
  | [] => some []
  | .char c :: units => (decodeUnits? units).map (c :: ·)
  | .unit first :: units =>
    if 0xD800 ≤ first ∧ first < 0xDC00 then
      match units with
      | .unit second :: units =>
        if 0xDC00 ≤ second ∧ second < 0xE000 then
          (decodeUnits? units).map
            (Char.ofNat (0x10000 + (first - 0xD800) * 0x400 + (second - 0xDC00)) :: ·)
        else none
      | _ => none
    else if 0xDC00 ≤ first ∧ first < 0xE000 then none
    else (decodeUnits? units).map (Char.ofNat first :: ·)

/-- The text of a string. -/
def decodeString? (units : List StringUnit) : Option String := (decodeUnits? units).map String.ofList

namespace Document

mutual
/-- The value of a document in which `room` more arrays and objects may be open. -/
def toJson? (room : Nat) : Document → Option Json
  | .null => some .null
  | .bool b => some (.bool b)
  | .number literal => literal.toJson?
  | .string units => (decodeString? units).map .string
  | .array items =>
    match room with
    | 0 => none
    | room + 1 => (toItems? room items).map .array
  | .object fields =>
    match room with
    | 0 => none
    | room + 1 => (toFields? room fields).map .object
def toItems? (room : Nat) : List Document → Option (List Json)
  | [] => some []
  | d :: items =>
    match d.toJson? room, toItems? room items with
    | some j, some js => some (j :: js)
    | _, _ => none
def toFields? (room : Nat) : List (List StringUnit × Document) → Option (List (String × Json))
  | [] => some []
  | (units, d) :: fields =>
    match decodeString? units, d.toJson? room, toFields? room fields with
    | some key, some j, some js => some ((key, j) :: js)
    | _, _, _ => none
end

end Document

/-- The value that a text is, its fields as they are written. -/
def read? (s : String) : Option Json := (Document.ofText? s.toList).bind (Document.toJson? maxDepth)

/-- The value that a text is, its fields in the order of their keys. -/
def ofText? (s : String) : Option Json := (read? s).map sorted

/-- Why a text is not read as something else than a value. -/
inductive TextError (ε : Type) where
  /-- It is no JSON. -/
  | malformed
  /-- It is JSON, but not of the kind that is called for. -/
  | unfit (cause : ε)

/-- Reads a text by way of a value, its fields in the order of their keys. What is wrong with the value is told
before what follows it is looked at. -/
def readAs {ε α : Type} (convert : Json → Except ε α) (s : String) : Except (TextError ε) α :=
  match Document.front? s.toList with
  | none => .error .malformed
  | some (d, rest) =>
    match d.toJson? maxDepth with
    | none => .error .malformed
    | some j =>
      match convert j.sorted with
      | .error e => .error (.unfit e)
      | .ok a => if rest.all Token.isBlank then .ok a else .error .malformed

end PropertyExpr.Json
