import PropertyExpr.Decimal.Shortest
import PropertyExpr.Proofs.Representation
/-!
# Decimals as doubles

A decimal without a fraction is the double of the number it stands for (`toFloat_natCast`), one that is exactly a
double is that double (`unpack_toFloat_of_representable`), and no decimal is a double with a minus sign
(`unsigned_toFloat`).
-/
namespace PropertyExpr

open Float.Model Float.Model.UnpackedFloat
open Float.Model.Format (binary64)

/-! ## No minus sign -/

/-- There is no minus sign. -/
def Unsigned : UnpackedFloat → Prop
  | .notANumber => True
  | .infinity s | .zero s | .finite s _ _ _ => s = .positive

section
variable {u u' : UnpackedFloat}

theorem unsigned_of_unpackSign {b : BitVec binary64.numBits} (h : Sign.ofBitVec (unpackSign b) = .positive) :
    Unsigned (UnpackedFloat.unpack binary64 b) := by
  rw [UnpackedFloat.unpack]
  simp only
  split
  · split
    · exact h
    · trivial
  · split
    · split
      · exact h
      · exact h
    · exact h

theorem Unsigned.unpack_pack (h : Unsigned u) :
    Unsigned (UnpackedFloat.unpack binary64 (UnpackedFloat.pack binary64 u)) := by
  cases u with
  | notANumber => exact unsigned_of_unpackSign rfl
  | infinity s =>
    obtain rfl : s = .positive := h
    exact unsigned_of_unpackSign rfl
  | zero s =>
    obtain rfl : s = .positive := h
    exact unsigned_of_unpackSign rfl
  | finite s m w hm =>
    obtain rfl : s = .positive := h
    apply unsigned_of_unpackSign
    rw [UnpackedFloat.pack]
    simp only
    split
    · rfl
    · split
      · rw [unpackSign_packComponents]; rfl
      · rw [unpackSign_packComponents]; rfl

theorem unsigned_roundWithAccuracy (m : Nat) (w : Int) (accuracy : Accuracy) :
    Unsigned (roundWithAccuracy binary64 .positive m w accuracy) := by
  rw [roundWithAccuracy]
  simp only
  split
  · rfl
  · rfl

theorem Unsigned.mul (h : Unsigned u) (h' : Unsigned u') : Unsigned (UnpackedFloat.mul binary64 u u') := by
  cases u <;> cases u' <;> simp only [Unsigned] at h h' <;> subst_vars <;>
    first | trivial | exact unsigned_roundWithAccuracy _ _ _

theorem Unsigned.div (h : Unsigned u) (h' : Unsigned u') : Unsigned (UnpackedFloat.div binary64 u u') := by
  cases u <;> cases u' <;> simp only [Unsigned] at h h' <;> subst_vars <;>
    first | trivial | exact unsigned_roundWithAccuracy _ _ _

theorem Unpacks.unsigned {n : Nat} (h : Unpacks n u) : Unsigned u := by
  cases h <;> rfl

end

/-! ## Powers of ten -/

theorem powerOfTen_eq : ∀ e (h : e < Float.exactlyRepresentablePowersOfTen.size),
    Float.exactlyRepresentablePowersOfTen[e] = .ofModel (.ofNat (10 ^ e)) := by
  decide +kernel

/-- The powers of ten up to the 22nd are doubles. -/
theorem rounded_powerOfTen : ∀ e ≤ 22, rounded (10 ^ e) = 10 ^ e ∧ rounded (10 ^ e) < doubleBound := by
  decide +kernel

/-- A short decimal is made of two doubles, any other is rounded by itself. -/
theorem toFloat_eq (d : Decimal) : d.toFloat = .ofModel (
    if d.digits < 2 ^ 53 ∧ d.exponent.natAbs ≤ 22 then
      if d.exponent < 0 then Float.Model.ofNat d.digits / .ofNat (10 ^ d.exponent.natAbs)
      else Float.Model.ofNat d.digits * .ofNat (10 ^ d.exponent.natAbs)
    else Float.Model.ofScientific d.digits d.exponent) := by
  rw [Decimal.toFloat, Float.ofScientific]
  by_cases h : d.digits < 2 ^ 53 ∧ d.exponent.natAbs ≤ 22
  · have hpower := powerOfTen_eq d.exponent.natAbs (Nat.lt_succ_of_le h.2)
    rw [dif_pos h, if_pos h]
    simp only [toFloat_toUInt64 h.1, decide_eq_true_eq]
    split
    · exact congrArg (Float.ofModel (.ofNat d.digits) / ·) hpower
    · exact congrArg (Float.ofModel (.ofNat d.digits) * ·) hpower
  · have hexponent : (if decide (d.exponent < 0) = true then Int.negOfNat d.exponent.natAbs
        else Int.ofNat d.exponent.natAbs) = d.exponent := by
      simp only [decide_eq_true_eq, Int.negOfNat_eq, Int.ofNat_eq_natCast]
      omega
    rw [dif_neg h, if_neg h]
    simp only [hexponent]

/-- No decimal has a minus sign. -/
theorem unsigned_toFloat (d : Decimal) : Unsigned d.toFloat.toModel.unpack := by
  have hdigits := (unpacks_ofNat d.digits).unsigned
  have hpower := (unpacks_ofNat (10 ^ d.exponent.natAbs)).unsigned
  rw [toFloat_eq]
  split
  · split
    · exact (hdigits.div hpower).unpack_pack
    · exact (hdigits.mul hpower).unpack_pack
  · refine Unsigned.unpack_pack ?_
    rw [UnpackedFloat.ofScientific]
    split
    · rfl
    split
    · rfl
    split
    · rfl
    split
    · exact Unsigned.mul rfl rfl
    · exact Unsigned.div rfl rfl

/-! ## Decimals without a fraction -/

/-- A decimal that is a natural number is the double of that number. -/
theorem toFloat_natCast (k g : Nat) : Decimal.toFloat ⟨k, g⟩ = Float.ofNat (k * 10 ^ g) := by
  rw [toFloat_eq, ofNat_eq_ofModel, Int.natAbs_natCast, if_neg (Int.not_lt.2 (Int.natCast_nonneg g))]
  congr 1
  split
  · rename_i h
    have hpos : 10 ^ g ≠ 0 := Nat.pos_iff_ne_zero.1 (Nat.pow_pos (by decide))
    obtain ⟨hexact, hfits⟩ := rounded_powerOfTen g h.2
    rw [model_ofNat_mul k hpos hfits, hexact, rounded_of_lt h.1]
  · exact model_ofScientific_natCast k g

/-! ## Decimals that are doubles -/

theorem Unpacks.exists_bits {n : Nat} {u : UnpackedFloat} (h : Unpacks n u) (hn : n ≠ 0)
    (hfits : rounded n < doubleBound) : ∃ v w, ∃ hbits : Bits n v w, u = .finite .positive v w hbits.pos := by
  cases h with
  | zero => exact absurd rfl hn
  | finite hbits => exact ⟨_, _, hbits, rfl⟩
  | infinite hlarge => exact absurd hlarge (Nat.not_le.2 hfits)

/-- The decimal with which a double is written out in full, if its exponent is negative. -/
theorem unpack_toFloat_of_representable {m k : Nat} (h : Representable m (-k)) (hk : 0 < k) :
    (Decimal.toFloat ⟨m * 5 ^ k, -k⟩).toModel.unpack = .finite .positive m (-k) h.pos := by
  have hpos : 0 < m * 5 ^ k := Nat.mul_pos h.pos (Nat.pow_pos (by decide))
  have hten : 0 < 10 ^ k := Nat.pow_pos (by decide)
  have hquot : m * 5 ^ k * 2 ^ k = m * 10 ^ k := by rw [Nat.mul_assoc, ← Nat.mul_pow]
  have hleast := h.least
  rw [toFloat_eq, Int.natAbs_neg, Int.natAbs_natCast]
  simp only [show -(k : Int) < 0 by omega, if_true]
  split
  · -- both the digits and the power of ten are doubles
    rename_i hshort
    obtain ⟨hexact, hfits⟩ := rounded_powerOfTen k hshort.2
    have hdigits := rounded_of_lt hshort.1
    obtain ⟨v, w, hbits, hu⟩ :=
      (unpacks_ofNat (m * 5 ^ k)).exists_bits (by omega) (rounded_lt_doubleBound hshort.1)
    obtain ⟨v', w', hbits', hu'⟩ := (unpacks_ofNat (10 ^ k)).exists_bits (by omega) hfits
    have hden := hbits.denotes
    have hden' := hbits'.denotes
    rw [hdigits] at hden
    rw [hexact] at hden'
    show UnpackedFloat.unpack binary64 (UnpackedFloat.pack binary64 (UnpackedFloat.div binary64
      (Float.Model.ofNat (m * 5 ^ k)).unpack (Float.Model.ofNat (10 ^ k)).unpack)) = _
    rw [hu, hu', div_eq _ _ hden hden' h hquot, h.unpack_pack]
  · have hone (n : Nat) : Denotes n 0 n := rfl
    have hsmall : ¬ -(k : Int) > 2 ^ binary64.exponentBits := by
      show ¬ -(k : Int) > 2 ^ 11
      omega
    have hlarge : ¬ -(k : Int) < -(2 ^ binary64.exponentBits + ((m * 5 ^ k).log2 : Nat)) := by
      show ¬ -(k : Int) < -(2 ^ 11 + ((m * 5 ^ k).log2 : Nat))
      omega
    show UnpackedFloat.unpack binary64 (UnpackedFloat.pack binary64 (UnpackedFloat.ofScientific binary64 _ _)) = _
    rw [UnpackedFloat.ofScientific, dif_neg (by omega), if_neg hsmall, if_neg hlarge, if_neg (by omega)]
    simp only [Int.neg_neg, Int.toNat_natCast]
    rw [div_eq _ _ (hone (m * 5 ^ k)) (hone (10 ^ k)) h hquot, h.unpack_pack]

end PropertyExpr
