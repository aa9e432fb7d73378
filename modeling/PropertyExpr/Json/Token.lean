import PropertyExpr.Json.Number
/-!
# Tokens of JSON text

Strict JSON: blanks are space, tab, line feed and carriage return, a number has no leading zero, and a string
has no character below U+0020. A string is kept as written, so that an escape which names half a character
can be told from a whole one.
-/
namespace PropertyExpr.Json

/-- A part of a string: a character, or a UTF-16 unit written as `\uXXXX`. -/
inductive StringUnit where
  | char (c : Char)
  | unit (value : Nat)
deriving DecidableEq, Repr

inductive Token where
  | openArray | closeArray | openObject | closeObject | comma | colon
  | null
  | bool (value : Bool)
  | number (literal : NumberLiteral)
  | string (units : List StringUnit)
deriving DecidableEq, Repr

namespace Token

def hexDigit? (c : Char) : Option Nat :=
  if c.isDigit then some (c.toNat - '0'.toNat)
  else if 'a' ≤ c ∧ c ≤ 'f' then some (c.toNat - 'a'.toNat + 10)
  else if 'A' ≤ c ∧ c ≤ 'F' then some (c.toNat - 'A'.toNat + 10)
  else none

/-- The value of four hexadecimal digits. -/
def hexUnit? (a b c d : Char) : Option Nat := do
  return ((← hexDigit? a) * 16 + (← hexDigit? b)) * 256 + ((← hexDigit? c) * 16 + (← hexDigit? d))

/-- What a backslash and `c` stand for. -/
def escaped? : Char → Option Char
  | '"' => some '"'
  | '\\' => some '\\'
  | '/' => some '/'
  | 'b' => some '\x08'
  | 'f' => some '\x0c'
  | 'n' => some '\n'
  | 'r' => some '\r'
  | 't' => some '\t'
  | _ => none

/-- The inside of a string up to its closing quote, and what follows. -/
def stringBody? : List Char → Option (List StringUnit × List Char)
  | [] => none
  | '"' :: cs => some ([], cs)
  | '\\' :: 'u' :: a :: b :: c :: d :: cs =>
    match hexUnit? a b c d, stringBody? cs with
    | some value, some (units, rest) => some (.unit value :: units, rest)
    | _, _ => none
  | '\\' :: e :: cs =>
    match escaped? e, stringBody? cs with
    | some c, some (units, rest) => some (.char c :: units, rest)
    | _, _ => none
  | c :: cs =>
    if c = '\\' ∨ c.toNat < 0x20 then none
    else (stringBody? cs).map fun (units, rest) => (.char c :: units, rest)

/-- The digits at the front of `cs`, of which there must be one, and what follows. -/
def digits? (cs : List Char) : Option (List Char × List Char) :=
  let digits := cs.takeWhile Char.isDigit
  if digits.isEmpty then none else some (digits, cs.dropWhile Char.isDigit)

/-- The whole part of a number: a zero alone, or digits that do not start with one. -/
def whole? (cs : List Char) : Option (List Char × List Char) :=
  match digits? cs with
  | some ('0' :: _ :: _, _) => none
  | r => r

/-- The fraction at the front of `cs`, if there is a point. -/
def fraction? : List Char → Option (Option (List Char) × List Char)
  | '.' :: cs => (digits? cs).map fun (digits, rest) => (some digits, rest)
  | cs => some (none, cs)

/-- The exponent at the front of `cs`, if there is a letter for one. -/
def exponent? : List Char → Option (Option ExponentPart × List Char)
  | [] => some (none, [])
  | e :: cs =>
    if e = 'e' ∨ e = 'E' then
      let (negative, digits) := match cs with
        | '-' :: cs => (true, cs)
        | '+' :: cs => (false, cs)
        | cs => (false, cs)
      (digits? digits).map fun (digits, rest) => (some ⟨negative, digits⟩, rest)
    else some (none, e :: cs)

/-- The number at the front of `cs`, of which the sign has been read. -/
def number? (negative : Bool) (cs : List Char) : Option (NumberLiteral × List Char) := do
  let (whole, cs) ← whole? cs
  let (fraction, cs) ← fraction? cs
  let (exponent, cs) ← exponent? cs
  return (⟨negative, whole, fraction, exponent⟩, cs)

/-- `cs` without `word` at its front. -/
def afterWord? (word cs : List Char) : Option (List Char) :=
  if word.isPrefixOf cs then some (cs.drop word.length) else none

/-- The token at the front of `c :: cs`, and what follows. -/
def read? (c : Char) (cs : List Char) : Option (Token × List Char) :=
  match c with
  | '[' => some (openArray, cs)
  | ']' => some (closeArray, cs)
  | '\x7b' => some (openObject, cs)
  | '\x7d' => some (closeObject, cs)
  | ',' => some (comma, cs)
  | ':' => some (colon, cs)
  | '"' => (stringBody? cs).map fun (units, rest) => (string units, rest)
  | '-' => (number? true cs).map fun (literal, rest) => (number literal, rest)
  | 'n' => (afterWord? "ull".toList cs).map (null, ·)
  | 't' => (afterWord? "rue".toList cs).map (bool true, ·)
  | 'f' => (afterWord? "alse".toList cs).map (bool false, ·)
  | c => (number? false (c :: cs)).map fun (literal, rest) => (number literal, rest)

def isBlank (c : Char) : Bool := c = ' ' || c = '\t' || c = '\n' || c = '\r'

/-- The first token of a text, and what follows. -/
def first? (cs : List Char) : Option (Token × List Char) :=
  match cs.dropWhile isBlank with
  | [] => none
  | c :: cs => read? c cs

end Token

end PropertyExpr.Json
