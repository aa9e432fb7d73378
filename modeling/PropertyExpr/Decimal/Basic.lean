/-!
# Decimal numbers

A decimal is a number of digits and a power of ten. `Decimal.toFloat` is the double nearest to it.
-/
namespace PropertyExpr

/-- The value of a run of decimal digits. -/
def digitsValue (digits : List Char) : Nat :=
  digits.foldl (fun n c => 10 * n + (c.toNat - '0'.toNat)) 0

/-- The number `digits · 10 ^ exponent`. -/
structure Decimal where
  digits : Nat
  exponent : Int
deriving DecidableEq, Repr, Inhabited

/-- The double nearest to `d`; halfway between two doubles, the one with the even mantissa. -/
def Decimal.toFloat (d : Decimal) : Float :=
  Float.ofScientific d.digits (d.exponent < 0) d.exponent.natAbs

/-- Without an exponent it is the double of the digits. -/
theorem Decimal.toFloat_mk_zero (n : Nat) : toFloat ⟨n, (0 : Nat)⟩ = Float.ofNat n := rfl

end PropertyExpr
