import PropertyExpr.Decimal.Basic
/-!
# Decimal numbers as text

`readDecimal?` reads an optional sign, digits with an optional point among or around them, and an optional
exponent: `-12`, `1.`, `.5`, `1.5e-7`. There must be a digit beside the point and one in the exponent.
-/
namespace PropertyExpr

/-- The sign at the front of `cs`, and what follows it. -/
def readSign : List Char → Bool × List Char
  | '-' :: cs => (true, cs)
  | '+' :: cs => (false, cs)
  | cs => (false, cs)

/-- The exponent that `cs` is: nothing, or a letter, a sign and digits. -/
def readExponent? : List Char → Option Int
  | [] => some 0
  | e :: cs =>
    let (negative, digits) := readSign cs
    if (e = 'e' ∨ e = 'E') ∧ digits ≠ [] ∧ digits.all Char.isDigit then
      some (if negative then -digitsValue digits else digitsValue digits)
    else none

/-- The digits behind a point at the front of `cs`, and what follows them. -/
def readFraction : List Char → List Char × List Char
  | '.' :: cs => (cs.takeWhile Char.isDigit, cs.dropWhile Char.isDigit)
  | cs => ([], cs)

/-- The decimal that an unsigned text is. -/
def readUnsigned? (cs : List Char) : Option Decimal :=
  let whole := cs.takeWhile Char.isDigit
  let (fraction, rest) := readFraction (cs.dropWhile Char.isDigit)
  if whole.isEmpty && fraction.isEmpty then none
  else (readExponent? rest).map fun e => ⟨digitsValue (whole ++ fraction), e - fraction.length⟩

/-- Whether a decimal text is negative, and its absolute value. -/
def readDecimal? (cs : List Char) : Option (Bool × Decimal) :=
  let (negative, cs) := readSign cs
  (readUnsigned? cs).map (negative, ·)

/-- The double nearest to the decimal that `cs` is. -/
def readDouble? (cs : List Char) : Option Float :=
  (readDecimal? cs).map fun (negative, d) => if negative then -d.toFloat else d.toFloat

end PropertyExpr
