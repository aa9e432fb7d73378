import PropertyExpr.Decimal.Layout
import PropertyExpr.Json.Basic
/-!
# JSON values as text

`Json.compact` writes a value without blanks, `Json.pretty` with two blanks of indentation for each level. In
strings, quotes, backslashes and the characters below U+0020 are escaped and all others stand as they are.
-/
namespace PropertyExpr.Json

/-- One character inside a string. -/
def escapeChar (c : Char) : List Char :=
  match c with
  | '"' => ['\\', '"']
  | '\\' => ['\\', '\\']
  | '\n' => ['\\', 'n']
  | '\r' => ['\\', 'r']
  | '\t' => ['\\', 't']
  | '\x08' => ['\\', 'b']
  | '\x0c' => ['\\', 'f']
  | c =>
    if c.toNat < 0x20 then
      ['\\', 'u', '0', '0', Nat.digitChar (c.toNat / 16), Nat.digitChar (c.toNat % 16)]
    else [c]

def writeString (s : String) : List Char := '"' :: s.toList.flatMap escapeChar ++ ['"']

/-- A double. JSON has no way to write the ones that are not finite; they are written as `null`. -/
def writeFloat (x : Float) : List Char :=
  match x.toModel.unpack with
  | .notANumber => "null".toList
  | .infinity _ => "null".toList
  | .zero .positive => "0.0".toList
  | .zero .negative => "-0.0".toList
  | .finite .positive mantissa exponent _ => Layout.json.write ⟨mantissa, exponent⟩
  | .finite .negative mantissa exponent _ => '-' :: Layout.json.write ⟨mantissa, exponent⟩

mutual
/-- A value without blanks. -/
def compact : Json → List Char
  | null => "null".toList
  | bool b => if b then "true".toList else "false".toList
  | int n => (toString n).toList
  | float x => writeFloat x
  | string s => writeString s
  | array items => '[' :: compactItems items
  | object fields => '\x7b' :: compactFields fields
/-- The items of an array and what closes it. -/
def compactItems : List Json → List Char
  | [] => [']']
  | [j] => j.compact ++ [']']
  | j :: items => j.compact ++ ',' :: compactItems items
/-- The fields of an object and what closes it. -/
def compactFields : List (String × Json) → List Char
  | [] => ['\x7d']
  | [(key, j)] => writeString key ++ ':' :: j.compact ++ ['\x7d']
  | (key, j) :: fields => writeString key ++ ':' :: j.compact ++ ',' :: compactFields fields
end

/-- A new line at a level of indentation. -/
def newLine (level : Nat) : List Char := '\n' :: List.replicate (2 * level) ' '

mutual
/-- A value over several lines, its first line already indented to `level`. -/
def indented (level : Nat) : Json → List Char
  | array [] => ['[', ']']
  | array (j :: items) => '[' :: newLine (level + 1) ++ j.indented (level + 1) ++ indentedItems level items
  | object [] => ['\x7b', '\x7d']
  | object ((key, j) :: fields) =>
    '\x7b' :: newLine (level + 1) ++ writeString key ++ ':' :: ' ' :: j.indented (level + 1) ++
      indentedFields level fields
  | null => "null".toList
  | bool b => if b then "true".toList else "false".toList
  | int n => (toString n).toList
  | float x => writeFloat x
  | string s => writeString s
/-- The items after the first and what closes the array. -/
def indentedItems (level : Nat) : List Json → List Char
  | [] => newLine level ++ [']']
  | j :: items => ',' :: newLine (level + 1) ++ j.indented (level + 1) ++ indentedItems level items
/-- The fields after the first and what closes the object. -/
def indentedFields (level : Nat) : List (String × Json) → List Char
  | [] => newLine level ++ ['\x7d']
  | (key, j) :: fields =>
    ',' :: newLine (level + 1) ++ writeString key ++ ':' :: ' ' :: j.indented (level + 1) ++
      indentedFields level fields
end

def pretty (j : Json) : List Char := j.indented 0

/-- The compact text of `j`. -/
def text (j : Json) : String := String.ofList j.compact

end PropertyExpr.Json
