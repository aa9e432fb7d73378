import PropertyExpr.Proofs.Decimals
/-!
# The shortest decimal reads back

Whatever grid the search for a short decimal ends on, the decimal is read as the double it was made for
(`unpack_toFloat_shortest`): a hit was tested, and on the finest grid the double is written out in full.
-/
namespace PropertyExpr

open Float.Model Float.Model.UnpackedFloat
open Float.Model.Format (binary64)

/-- The double of a number that is one has the form of it. -/
theorem Representable.unpack_ofNat {m n : Nat} {w : Int} (h : Representable m w) (hden : Denotes m w n) :
    (Float.ofNat n).toModel.unpack = .finite .positive m w h.pos := by
  have hm : m ≠ 0 := Nat.pos_iff_ne_zero.1 h.pos
  rw [ofNat_eq_ofModel]
  show UnpackedFloat.unpack binary64 (UnpackedFloat.pack binary64 (UnpackedFloat.ofNat binary64 n)) = _
  rw [ofNat_eq_round (hden.ne_zero hm), ← round_of_denotes hden hm, h.round_eq_self, h.unpack_pack]

namespace Magnitude

variable {m : Magnitude}

theorem ofFloat?_eq_some_iff {x : Float} :
    ofFloat? x = some m ↔ ∃ s h, x.toModel.unpack = .finite s m.mantissa m.exponent h := by
  rw [ofFloat?]
  constructor
  · intro h
    split at h
    · rename_i s mantissa exponent hpos hx
      cases h
      exact ⟨s, hpos, hx⟩
    · cases h
  · rintro ⟨s, hpos, hx⟩
    rw [hx]

/-- What is found on a grid reads back. -/
theorem reads_of_onGrid? {reads : Decimal → Bool} {tie : Tie} {grid : Int} {d : Decimal}
    (h : m.onGrid? reads tie grid = some d) : reads d := by
  rw [onGrid?] at h
  simp only at h
  split at h
  · rename_i hbelow habove
    cases h
    split
    · exact habove
    · exact hbelow
  · cases h
    assumption
  · cases h
    assumption
  · cases h

/-- The last thing that is tried: what lies on the finest grid. -/
def written (m : Magnitude) : Decimal := ⟨(m.steps m.finestGrid).1 / (m.steps m.finestGrid).2, m.finestGrid⟩

theorem search_reads_or_eq (m : Magnitude) (reads : Decimal → Bool) (tie : Tie) (n : Nat) :
    reads (m.search reads tie m.finestGrid n) ∨ m.search reads tie m.finestGrid n = m.written := by
  induction n with
  | zero => exact .inr rfl
  | succ n ih =>
    rw [search]
    cases h : m.onGrid? reads tie (m.finestGrid + (n + 1 : Nat)) with
    | none => exact ih
    | some d => exact .inl (reads_of_onGrid? h)

theorem written_natCast (mantissa e : Nat) : written ⟨mantissa, e⟩ = ⟨mantissa * 2 ^ e, (0 : Nat)⟩ := by
  have hgrid : finestGrid ⟨mantissa, e⟩ = 0 := min_eq_right (Int.natCast_nonneg e)
  rw [written, hgrid]
  simp [steps, numerator, denominator, Nat.pow_eq]

theorem written_neg_natCast (mantissa k : Nat) : written ⟨mantissa, -k⟩ = ⟨mantissa * 5 ^ k, -k⟩ := by
  have hgrid : finestGrid ⟨mantissa, -k⟩ = -k := min_eq_left (neg_nonpos.2 (Int.natCast_nonneg k))
  have hquot : mantissa * 10 ^ k = mantissa * 5 ^ k * 2 ^ k := by rw [Nat.mul_assoc, ← Nat.mul_pow]
  rw [written, hgrid]
  simp [steps, numerator, denominator, Nat.pow_eq, hquot]

/-- On the finest grid a double is written out in full. -/
theorem unpack_toFloat_written (h : Representable m.mantissa m.exponent) :
    m.written.toFloat.toModel.unpack = .finite .positive m.mantissa m.exponent h.pos := by
  obtain ⟨mantissa, exponent⟩ := m
  rcases Int.lt_or_le exponent 0 with hneg | hpos
  · obtain ⟨k, rfl⟩ : ∃ k : Nat, exponent = -k := ⟨exponent.natAbs, by omega⟩
    rw [written_neg_natCast]
    exact unpack_toFloat_of_representable h (by omega)
  · obtain ⟨e, rfl⟩ := Int.eq_ofNat_of_zero_le hpos
    have hden : Denotes mantissa e (mantissa * 2 ^ e) := (denotes_iff (i := e) (j := 0) (by omega)).2 (by ring)
    rw [written_natCast, Decimal.toFloat_mk_zero]
    exact h.unpack_ofNat hden

/-- **The shortest decimal reads back.** -/
theorem unpack_toFloat_shortest (h : Representable m.mantissa m.exponent) (tie : Tie) :
    (m.shortest tie).toFloat.toModel.unpack = .finite .positive m.mantissa m.exponent h.pos := by
  rcases m.search_reads_or_eq (fun d => decide (ofFloat? d.toFloat = some m)) tie
    (decimalLength m.floor - m.finestGrid).toNat with hreads | hwritten
  · obtain ⟨s, hm, hunpack⟩ := ofFloat?_eq_some_iff.1 (of_decide_eq_true hreads)
    have hsign := unsigned_toFloat (m.shortest tie)
    rw [shortest] at hsign ⊢
    rw [hunpack] at hsign ⊢
    obtain rfl : s = .positive := hsign
    rfl
  · rw [shortest, hwritten]
    exact unpack_toFloat_written h

end Magnitude

end PropertyExpr
