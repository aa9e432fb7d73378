import PropertyExpr.Decimal.Basic
/-!
# The shortest decimal that reads back

A double has many decimals that read back as it. `Magnitude.shortest` looks for one on coarser to finer grids
of multiples of a power of ten, testing the two neighbours of the double on each grid, and takes the first
that reads back; of two on one grid, the nearer. The finest grid holds the double itself, so there is always
one.
-/
namespace PropertyExpr

/-- The absolute value `mantissa · 2 ^ exponent` of a double other than zero. -/
structure Magnitude where
  mantissa : Nat
  exponent : Int
deriving DecidableEq, Repr

namespace Magnitude

/-- The absolute value of `x`, unless `x` is zero, infinite or no number. -/
def ofFloat? (x : Float) : Option Magnitude :=
  match x.toModel.unpack with
  | .finite _ mantissa exponent _ => some ⟨mantissa, exponent⟩
  | _ => none

/-- The value as a fraction. -/
def numerator (m : Magnitude) : Nat := m.mantissa * Nat.pow 2 m.exponent.toNat

def denominator (m : Magnitude) : Nat := Nat.pow 2 (-m.exponent).toNat

/-- The integral part. -/
def floor (m : Magnitude) : Nat := m.numerator / m.denominator

/-- Whether there is no fractional part. -/
def isIntegral (m : Magnitude) : Bool := m.numerator % m.denominator = 0

/-- The value in steps of `10 ^ grid`, as a numerator and a denominator. -/
def steps (m : Magnitude) (grid : Int) : Nat × Nat :=
  (m.numerator * Nat.pow 10 (-grid).toNat, m.denominator * Nat.pow 10 grid.toNat)

/-- What to take halfway between two multiples. -/
inductive Tie where
  | up | even
deriving DecidableEq, Repr

/-- Whether the upper of two neighbouring multiples is nearer to `lower + remainder / step`. -/
def Tie.takesUpper (tie : Tie) (lower remainder step : Nat) : Bool :=
  match compare (2 * remainder) step with
  | .lt => false
  | .gt => true
  | .eq => tie = .up || lower % 2 = 1

/-- The multiple of `10 ^ grid` next to `m` that `reads` back, if there is one; the nearer if there are two. -/
def onGrid? (m : Magnitude) (reads : Decimal → Bool) (tie : Tie) (grid : Int) : Option Decimal :=
  let (numerator, denominator) := m.steps grid
  let lower := numerator / denominator
  let below : Decimal := ⟨lower, grid⟩
  let above : Decimal := ⟨lower + 1, grid⟩
  match reads below, reads above with
  | true, true => some (if tie.takesUpper lower (numerator % denominator) denominator then above else below)
  | true, false => some below
  | false, true => some above
  | false, false => none

/-- The first hit on the grids from `10 ^ (finest + n)` down to `10 ^ finest`, where the value itself lies. -/
def search (m : Magnitude) (reads : Decimal → Bool) (tie : Tie) (finest : Int) : Nat → Decimal
  | 0 => ⟨(m.steps finest).1 / (m.steps finest).2, finest⟩
  | n + 1 =>
    match m.onGrid? reads tie (finest + (n + 1 : Nat)) with
    | some d => d
    | none => m.search reads tie finest n

/-- The grid of which every such double is a multiple. -/
def finestGrid (m : Magnitude) : Int := min m.exponent 0

/-- The number of decimal digits of `n`, none for zero. -/
def decimalLength (n : Nat) : Nat := if n = 0 then 0 else (Nat.toDigits 10 n).length

/-- The shortest decimal that reads back as the positive double with magnitude `m`. -/
def shortest (m : Magnitude) (tie : Tie) : Decimal :=
  m.search (fun d => decide (ofFloat? d.toFloat = some m)) tie m.finestGrid
    (decimalLength m.floor - m.finestGrid).toNat

end Magnitude

end PropertyExpr
