import PropertyExpr.Decimal.Basic
import PropertyExpr.Json.Basic
/-!
# Number literals of JSON

An integer that fits a signed or an unsigned 64-bit integer is one; every other number, `-0` included, is a
double. That double is computed in two roundings: from at most the leading digits that fit an unsigned 64-bit
integer, rounded to a double, which a power of ten then multiplies or divides. A literal whose double would
be infinite is refused.
-/
namespace PropertyExpr.Json

/-- The exponent of a literal: its sign and its digits. -/
structure ExponentPart where
  negative : Bool
  digits : List Char
deriving DecidableEq, Repr

/-- A number as it is written, its digits not yet read. -/
structure NumberLiteral where
  negative : Bool
  whole : List Char
  /-- The digits behind a point, if there is one. -/
  fraction : Option (List Char)
  exponent : Option ExponentPart
deriving DecidableEq, Repr

namespace NumberLiteral

/-- The digits of `cs`, put behind those of `significand` as long as the result fits 64 bits, and how many
digits are left over. -/
def accumulate (significand : Nat) : List Char → Nat × Nat
  | [] => (significand, 0)
  | c :: cs =>
    let next := 10 * significand + (c.toNat - '0'.toNat)
    if next < UInt64.size then accumulate next cs else (significand, cs.length + 1)

/-- `significand · 10 ^ exponent` as a double: the significand is rounded first, then the product. Powers of
ten go up to `10 ^ 308`; smaller values are divided several times. -/
def scale? (f : Float) (exponent : Int) : Option Float :=
  if exponent.natAbs ≤ 308 then
    let power := Float.ofScientific 1 false exponent.natAbs
    if 0 ≤ exponent then
      let product := f * power
      if product.isInf then none else some product
    else some (f / power)
  else if f == 0.0 then some f
  else if 0 ≤ exponent then none
  else scale? (f / 1e308) (exponent + 308)
termination_by (-exponent).toNat
decreasing_by omega

/-- The value of an exponent, unless it does not fit a signed 32-bit integer. -/
def ExponentPart.value? (digits : List Char) : Option Nat :=
  let value := digitsValue digits
  if value ≤ Int32.maxValue.toInt then some value else none

/-- The significand and the power of ten that whole part and fraction stand for. -/
def significand (n : NumberLiteral) : Nat × Int :=
  let (whole, dropped) := accumulate 0 n.whole
  match n.fraction with
  | none => (whole, dropped)
  | some digits =>
    let (all, ignored) := accumulate whole digits
    (all, dropped - (digits.length - ignored : Nat))

/-- The absolute value of a literal as a double. -/
def magnitude? (n : NumberLiteral) : Option Float :=
  let (significand, power) := n.significand
  let f := Float.ofNat significand
  match n.exponent with
  | none => scale? f power
  | some ⟨negative, digits⟩ =>
    match ExponentPart.value? digits with
    | some value =>
      let exponent := if negative then power - value else power + value
      scale? f (max Int32.minValue.toInt (min Int32.maxValue.toInt exponent))
    | none => if significand ≠ 0 ∧ !negative then none else some 0.0

/-- The integer that a literal without point and exponent is, if it has one of the two 64-bit types. -/
def integer? (n : NumberLiteral) : Option Int :=
  let value := digitsValue n.whole
  if n.fraction.isSome || n.exponent.isSome then none
  else if n.negative then if 0 < value ∧ Int64.minValue.toInt ≤ -value then some (-value) else none
  else if value < UInt64.size then some value else none

/-- The number that a literal is. -/
def toJson? (n : NumberLiteral) : Option Json :=
  match n.integer? with
  | some value => some (.int value)
  | none => n.magnitude?.map fun f => .float (if n.negative then -f else f)

end NumberLiteral

end PropertyExpr.Json
