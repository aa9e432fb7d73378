import PropertyExpr.Proofs.Decimals
/-!
# Doubles that are numbers or infinities

What is made of a numeral is never a NaN: not the double of a decimal (`Decimal.isNaN_toFloat`), however many digits
it has and however large its exponent is, not that of a natural number (`isNaN_ofNat`), and neither with a minus sign
(`isNaN_neg`). Rounding and packing make zeros and infinities of what is too small or too large, and a short decimal is
made with a power of ten, which is neither.
-/
namespace PropertyExpr

open Float.Model Float.Model.UnpackedFloat
open Float.Model.Format (binary64)

section
variable {u : UnpackedFloat}

/-- Only the exponent of all ones is that of a NaN. -/
theorem unpack_ne_notANumber {b : BitVec binary64.numBits}
    (h : unpackExponent b ≠ -BitVec.ofNat binary64.exponentBits 1) :
    UnpackedFloat.unpack binary64 b ≠ .notANumber := by
  rw [UnpackedFloat.unpack]
  simp only [if_neg h]
  split
  · split <;> exact UnpackedFloat.noConfusion
  · exact UnpackedFloat.noConfusion

theorem unpack_packedInfinity (s : Sign) :
    UnpackedFloat.unpack binary64 (packedInfinity binary64 s) = .infinity s := by
  cases s <;> rfl

/-- Packing makes infinities of what is too large, and never a NaN. -/
theorem unpack_pack_ne_notANumber (h : u ≠ .notANumber) :
    UnpackedFloat.unpack binary64 (UnpackedFloat.pack binary64 u) ≠ .notANumber := by
  cases u with
  | notANumber => exact absurd rfl h
  | infinity s =>
    rw [UnpackedFloat.pack, unpack_packedInfinity]
    exact UnpackedFloat.noConfusion
  | zero s => cases s <;> exact unpack_ne_notANumber (by decide)
  | finite s m w hm =>
    rw [UnpackedFloat.pack]
    simp only
    split
    · rw [unpack_packedInfinity]
      exact UnpackedFloat.noConfusion
    rename_i hfits
    apply unpack_ne_notANumber
    split
    · -- the exponent of all ones is one that does not fit
      generalize (w + binary64.exponentBias + binary64.mantissaBitsWithoutImplicit).toNat = e at hfits ⊢
      have hfits : e + 1 < 2 ^ 11 := Nat.not_le.1 hfits
      rw [unpackExponent_packComponents]
      intro hones
      have hexponent : e % 2 ^ 11 = 2 ^ 11 - 1 := congrArg BitVec.toNat hones
      omega
    · rw [unpackExponent_packComponents]
      decide

theorem roundWithAccuracy_ne_notANumber (s : Sign) (m : Nat) (w : Int) (accuracy : Accuracy) :
    roundWithAccuracy binary64 s m w accuracy ≠ .notANumber := by
  rw [roundWithAccuracy]
  simp only
  split <;> exact UnpackedFloat.noConfusion

/-- A finite factor other than zero makes no NaN, nor does such a divisor. -/
theorem mul_div_finite_ne_notANumber (h : u ≠ .notANumber) (s : Sign) {m : Nat} (w : Int) (hm : 0 < m) :
    UnpackedFloat.mul binary64 u (.finite s m w hm) ≠ .notANumber ∧
      UnpackedFloat.div binary64 u (.finite s m w hm) ≠ .notANumber := by
  cases u with
  | notANumber => exact absurd rfl h
  | infinity | zero => exact ⟨UnpackedFloat.noConfusion, UnpackedFloat.noConfusion⟩
  | finite => exact ⟨roundWithAccuracy_ne_notANumber _ _ _ _, roundWithAccuracy_ne_notANumber _ _ _ _⟩

theorem Unpacks.ne_notANumber {n : Nat} (h : Unpacks n u) : u ≠ .notANumber := by
  cases h <;> exact UnpackedFloat.noConfusion

/-- A power of ten that is a double is finite and not zero. -/
theorem exists_unpack_powerOfTen {e : Nat} (he : e ≤ 22) :
    ∃ s m w, ∃ h : 0 < m, (Float.Model.ofNat (10 ^ e)).unpack = .finite s m w h := by
  have hpos : 10 ^ e ≠ 0 := Nat.pos_iff_ne_zero.1 (Nat.pow_pos (by decide))
  obtain ⟨m, w, h, heq⟩ := (unpacks_ofNat (10 ^ e)).exists_bits hpos (rounded_powerOfTen e he).2
  exact ⟨_, _, _, _, heq⟩

/-- Scaling by a power of ten of any size rounds, and does nothing else. -/
theorem ofScientific_ne_notANumber (n : Nat) (e : Int) : UnpackedFloat.ofScientific binary64 n e ≠ .notANumber := by
  rw [UnpackedFloat.ofScientific]
  split
  · exact UnpackedFloat.noConfusion
  split
  · exact UnpackedFloat.noConfusion
  split
  · exact UnpackedFloat.noConfusion
  split
  · exact (mul_div_finite_ne_notANumber UnpackedFloat.noConfusion _ _ _).1
  · exact (mul_div_finite_ne_notANumber UnpackedFloat.noConfusion _ _ _).2

end

section
variable {x : Float}

theorem isNaN_eq_false_iff : x.isNaN = false ↔ x.toModel.unpack ≠ .notANumber := by
  show x.toModel.unpack.isNaN = false ↔ _
  cases x.toModel.unpack with
  | notANumber => exact iff_of_false Bool.noConfusion fun h => h rfl
  | _ => exact iff_of_true rfl UnpackedFloat.noConfusion

theorem isNaN_neg (h : x.isNaN = false) : (-x).isNaN = false := by
  rw [isNaN_eq_false_iff] at h ⊢
  show UnpackedFloat.unpack binary64 (UnpackedFloat.pack binary64 (UnpackedFloat.neg x.toModel.unpack)) ≠ _
  apply unpack_pack_ne_notANumber
  cases hx : x.toModel.unpack with
  | notANumber => exact absurd hx h
  | _ => exact UnpackedFloat.noConfusion

theorem isNaN_ofNat (n : Nat) : (Float.ofNat n).isNaN = false := by
  rw [isNaN_eq_false_iff, ofNat_eq_ofModel]
  exact (unpacks_ofNat n).ne_notANumber

/-- **No decimal is a NaN**, however many digits it has and however large its exponent is. -/
theorem Decimal.isNaN_toFloat (d : Decimal) : d.toFloat.isNaN = false := by
  rw [isNaN_eq_false_iff, toFloat_eq]
  split
  · rename_i hsmall
    obtain ⟨s, m, w, hm, hpower⟩ := exists_unpack_powerOfTen hsmall.2
    have hparts := mul_div_finite_ne_notANumber (unpacks_ofNat d.digits).ne_notANumber s w hm
    rw [← hpower] at hparts
    split
    · exact unpack_pack_ne_notANumber hparts.2
    · exact unpack_pack_ne_notANumber hparts.1
  · exact unpack_pack_ne_notANumber (ofScientific_ne_notANumber _ _)

end

end PropertyExpr
