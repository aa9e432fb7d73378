import PropertyExpr.Decimal.Shortest
/-!
# How numbers are written

Both written forms of a number show the shortest digits that read back. They differ in a few decisions, which
a `Layout` records: `Layout.text` for numbers in rendered text, `Layout.json` for numbers in JSON.
-/
namespace PropertyExpr

/-- The decisions of a written form. The exponent of a number is that of its first digit. -/
structure Layout where
  /-- The least exponent that is written positionally. -/
  least : Int
  /-- The greatest exponent that is written positionally. -/
  greatest : Int
  /-- Whether a positional number always has a fraction, be it `.0`. -/
  fraction : Bool
  tie : Magnitude.Tie

namespace Layout

/-- Positional from `0.000001` to below `1e+21`; no fraction for integers. -/
def text : Layout := ⟨-6, 20, false, .up⟩

/-- Positional from `0.00001` to below `1e+16`, always with a fraction. -/
def json : Layout := ⟨-5, 15, true, .even⟩

/-- `digits · 10 ^ exponent` without an exponent. -/
def positional (layout : Layout) (digits : List Char) (exponent : Int) : List Char :=
  let first := exponent + digits.length - 1
  if 0 ≤ exponent then
    digits ++ List.replicate exponent.toNat '0' ++ if layout.fraction then ['.', '0'] else []
  else if 0 ≤ first then
    digits.take (first + 1).toNat ++ '.' :: digits.drop (first + 1).toNat
  else '0' :: '.' :: List.replicate (-first - 1).toNat '0' ++ digits

/-- One digit before the point, and an exponent with its sign. -/
def scientific (digits : List Char) (first : Int) : List Char :=
  digits.take 1 ++ (if digits.length ≤ 1 then [] else '.' :: digits.drop 1) ++
    'e' :: (if first < 0 then '-' else '+') :: Nat.toDigits 10 first.natAbs

def writeDecimal (layout : Layout) (d : Decimal) : List Char :=
  let digits := Nat.toDigits 10 d.digits
  let first := d.exponent + digits.length - 1
  if layout.least ≤ first ∧ first ≤ layout.greatest then layout.positional digits d.exponent
  else scientific digits first

/-- The absolute value of a finite double other than zero. -/
def write (layout : Layout) (m : Magnitude) : List Char := layout.writeDecimal (m.shortest layout.tie)

end Layout

end PropertyExpr
