/-!
# Signed 64-bit integers

`Number.int64?` finds the signed 64-bit integer that an integer is (`int64?_eq_some_iff`).
-/
namespace PropertyExpr.Number

/-- The signed 64-bit integer `n`, if it is one. -/
def int64? (n : Int) : Option Int64 :=
  if Int64.minValue.toInt ≤ n ∧ n ≤ Int64.maxValue.toInt then some (Int64.ofInt n) else none

theorem int64?_toInt (i : Int64) : int64? i.toInt = some i := by
  rw [int64?, if_pos ⟨Int64.minValue_le_toInt i, Int64.toInt_le i⟩, Int64.ofInt_toInt]

theorem int64?_eq_some_iff {n : Int} {i : Int64} : int64? n = some i ↔ i.toInt = n := by
  constructor
  · intro h
    simp only [int64?, Option.ite_none_right_eq_some, Option.some.injEq] at h
    obtain ⟨⟨lower, upper⟩, rfl⟩ := h
    have bound : Int64.maxValue.toInt = 9223372036854775807 := by decide
    exact Int64.toInt_ofInt_of_le lower (by omega)
  · rintro rfl
    exact int64?_toInt i

end PropertyExpr.Number
