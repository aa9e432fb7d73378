import PropertyExpr.Decimal.Reading
import PropertyExpr.Number.Text
import PropertyExpr.Text.Blank
/-!
# Text as a number: `evaluator::value::string_to_number`

Operands of an operator are numbers, so a text is read as one: `Number.ofText`. Blanks around it do not count,
and a blank text is zero. It may be a decimal, an integer with a radix prefix, or `Infinity` with a sign; any
other text is no number.

A radix integer is built digit by digit in double arithmetic, which rounds at each digit once the value has
more than 53 bits.
-/
namespace PropertyExpr.Number

/-- The value of `c` as a digit in `radix`. -/
def digit? (radix : Nat) (c : Char) : Option Nat :=
  let value? :=
    if c.isDigit then some (c.toNat - '0'.toNat)
    else if c.isLower then some (c.toNat - 'a'.toNat + 10)
    else if c.isUpper then some (c.toNat - 'A'.toNat + 10)
    else none
  value?.filter (· < radix)

/-- The value that is `value`, continued by the digits `cs` (the loop of `parse_radix`). -/
def appendDigits (radix : Nat) (value : Float) : List Char → Float
  | [] => value
  | c :: cs =>
    match digit? radix c with
    | some d => appendDigits radix (value * Float.ofNat radix + Float.ofNat d) cs
    | none => nan

/-- The radix that a prefix announces, and the digits behind the prefix. -/
def radixPrefix? : List Char → Option (Nat × List Char)
  | '0' :: c :: cs =>
    if c = 'x' ∨ c = 'X' then some (16, cs)
    else if c = 'o' ∨ c = 'O' then some (8, cs)
    else if c = 'b' ∨ c = 'B' then some (2, cs)
    else none
  | _ => none

/-- The integer with the given digits, of which there must be one (`parse_radix`). -/
def ofRadix (radix : Nat) (digits : List Char) : Float :=
  if digits.isEmpty then nan else appendDigits radix 0.0 digits

/-- The number that a text without blanks around it is. -/
def ofTrimmed (cs : List Char) : Float :=
  if cs.isEmpty then 0.0
  else if cs = "Infinity".toList ∨ cs = "+Infinity".toList then infinity
  else if cs = "-Infinity".toList then -infinity
  else match radixPrefix? cs with
    | some (radix, digits) => ofRadix radix digits
    | none => (readDouble? cs).getD nan

/-- The number that a text is (`string_to_number`). -/
def ofText (s : String) : Float := ofTrimmed (Text.trim s.toList)

end PropertyExpr.Number
