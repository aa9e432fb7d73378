import PropertyExpr.Proofs.Doubles
/-!
# How doubles are represented

A double that is finite and not zero has a mantissa of at most 53 bits and an exponent, and has all 53 bits unless
the exponent is the least (`Representable`). Such a mantissa and exponent survive packing (`unpack_pack`) and
rounding (`round_eq_self`), so a quotient that has them is found exactly (`div_eq`).
-/
namespace PropertyExpr

open Float.Model Float.Model.UnpackedFloat
open Float.Model.Format (binary64)

/-- Doubles that are unpacked to the same are the same. -/
theorem eq_of_unpack_eq {x y : Float} (h : x.toModel.unpack = y.toModel.unpack) : x = y := by
  have hbits := (unpack_inj_of_valid x.toModel.valid y.toModel.valid).1 h
  exact Float.toBits_inj.1 (UInt64.toBitVec_inj.1 hbits)

/-- `m · 2 ^ w` is a double in this form. -/
structure Representable (m : Nat) (w : Int) : Prop where
  pos : 0 < m
  high : m < 2 ^ 53
  least : -1074 ≤ w
  greatest : w ≤ 971
  full : 2 ^ 52 ≤ m ∨ w = -1074

/-- A finite double is unpacked to such a form. -/
theorem representable_of_unpack {b : BitVec binary64.numBits} {s : Sign} {m : Nat} {w : Int} {hm : 0 < m}
    (h : UnpackedFloat.unpack binary64 b = .finite s m w hm) : Representable m w := by
  have hbias : ((binary64.exponentBias : Nat) : Int) + (binary64.mantissaBitsWithoutImplicit : Nat) = 1075 := rfl
  rw [UnpackedFloat.unpack] at h
  simp only [hbias] at h
  by_cases hfull : unpackExponent b = -1#11
  · rw [if_pos hfull] at h
    split at h <;> cases h
  by_cases hzero : unpackExponent b = 0#11
  · -- the least exponent, and a bit less
    rw [if_neg hfull, if_pos hzero] at h
    split at h
    · cases h
    · rw [UnpackedFloat.finite.injEq] at h
      obtain ⟨-, rfl, rfl⟩ := h
      have hexp : (unpackExponent b).toNat = 0 := by rw [hzero]; rfl
      have hmantissa : (unpackMantissa b).toNat < 2 ^ 52 := (unpackMantissa b).isLt
      exact ⟨hm, by omega, by omega, by omega, .inr (by omega)⟩
  · rw [if_neg hfull, if_neg hzero, UnpackedFloat.finite.injEq] at h
    obtain ⟨-, rfl, rfl⟩ := h
    have hone : (1#1 ++ unpackMantissa b).toNat = 2 ^ 52 + (unpackMantissa b).toNat := toNat_one_append _
    have hmantissa : (unpackMantissa b).toNat < 2 ^ 52 := (unpackMantissa b).isLt
    have hexponent : (unpackExponent b).toNat < 2048 := (unpackExponent b).isLt
    have hzero' : (unpackExponent b).toNat ≠ 0 := fun h => hzero (BitVec.eq_of_toNat_eq h)
    have hfull' : (unpackExponent b).toNat ≠ 2047 := fun h => hfull (BitVec.eq_of_toNat_eq h)
    exact ⟨hm, by omega, by omega, by omega, .inl (by omega)⟩

/-- At the least exponent fewer bits survive. -/
theorem unpack_pack_subnormal {s : Sign} {m : Nat} (hpos : 0 < m) (hlow : m < 2 ^ 52) :
    UnpackedFloat.unpack binary64 (UnpackedFloat.pack binary64 (.finite s m (-1074) hpos)) =
      .finite s m (-1074) hpos := by
  have hlog : m.log2 < 52 := (Nat.log2_lt (by omega)).2 hlow
  have hbits : ¬ m.log2 + 1 = binary64.mantissaBits := by
    show ¬ m.log2 + 1 = 53
    omega
  have hmantissa : (BitVec.ofNat 52 m).toNat = m := by rw [BitVec.toNat_ofNat, Nat.mod_eq_of_lt hlow]
  have hne : BitVec.ofNat 52 m ≠ 0#52 := fun heq => by
    have hzero : m = 0 := by rw [← hmantissa, heq]; rfl
    omega
  rw [UnpackedFloat.pack]
  simp only
  rw [if_neg (by decide), if_neg hbits, UnpackedFloat.unpack]
  simp only [unpackMantissa_packComponents, unpackExponent_packComponents, unpackSign_packComponents,
    Sign.ofBitVec_toBitVec]
  rw [if_neg (by decide), if_pos trivial, dif_neg hne]
  simp only [hmantissa]
  rfl

namespace Representable

variable {m : Nat} {w : Int} (h : Representable m w) (s : Sign)

include h

theorem exponentFor_eq : exponentFor m w = w := by
  have hlog : m.log2 < 53 := (Nat.log2_lt (by have := h.pos; omega)).2 h.high
  have hlow := h.least
  unfold exponentFor
  rcases h.full with hfull | hleast
  · have := (Nat.le_log2 (by have := h.pos; omega)).2 hfull
    omega
  · omega

theorem round_eq_self : UnpackedFloat.round binary64 s m w = .finite s m w h.pos :=
  round_of_exponentFor_eq s h.pos h.high h.exponentFor_eq

/-- Neither is anything lost if the mantissa has zeros behind it. -/
theorem roundWithAccuracy_eq_self {t : Int} (ht : t ≤ w) :
    roundWithAccuracy binary64 s (m * 2 ^ (w - t).toNat) t .exact = .finite s m w h.pos := by
  have hm : m ≠ 0 := Nat.pos_iff_ne_zero.1 h.pos
  have hsum : t + ((w - t).toNat : Nat) = w := by omega
  have hexp := exponentFor_mul_two_pow hm (w - t).toNat t
  rw [hsum, h.exponentFor_eq] at hexp
  rw [roundWithAccuracy_eq_round_of_le _ _ _ (by omega), round_mul_two_pow _ _ _ _ hm, hsum, h.round_eq_self]

theorem unpack_pack : UnpackedFloat.unpack binary64 (UnpackedFloat.pack binary64 (.finite s m w h.pos)) =
    .finite s m w h.pos := by
  rcases Nat.lt_or_ge m (2 ^ 52) with hlow | hfull
  · obtain rfl : w = -1074 := h.full.resolve_left (by omega)
    exact unpack_pack_subnormal h.pos hlow
  · rw [unpack_pack_finite hfull h.high h.least, if_pos h.greatest]

end Representable

/-! ## Exact quotients -/

section
variable {v v' m a b k : Nat} {w w' : Int}

theorem log2_mul_le (hm : m ≠ 0) (hb : b ≠ 0) : (m * b).log2 ≤ m.log2 + b.log2 + 1 := by
  have hlt : m * b < 2 ^ (m.log2 + 1) * 2 ^ (b.log2 + 1) := Nat.mul_lt_mul'' Nat.lt_log2_self Nat.lt_log2_self
  rw [← Nat.pow_add] at hlt
  have := (Nat.log2_lt (Nat.mul_ne_zero hm hb)).2 hlt
  omega

/-- At a low exponent the dividend is a multiple of the divisor. -/
theorem mantissa_eq_of_quotient {t : Int} (ha : Denotes v w a) (hb : Denotes v' w' b) (hquot : a * 2 ^ k = m * b)
    (ht : t ≤ w - w') (htle : t ≤ -k) : v * 2 ^ (w - w' - t).toNat = m * 2 ^ (-k - t).toNat * v' := by
  have hleft := ha.mul_two_pow_right k
  have hright : Denotes (m * v') w' (a * 2 ^ k) := by
    have hone : Denotes m 0 m := rfl
    rw [hquot]
    simpa using hone.mul hb
  have hsame := hleft.left_unique hright (r := w' + t + k) (by omega) (by omega)
  rw [show w + (k : Int) - (w' + t + k) = w - w' - t by omega, show w' - (w' + t + k) = -k - t by omega] at hsame
  rw [hsame]
  ac_rfl

/-- A quotient that is a double is found exactly. -/
theorem div_eq (hv : 0 < v) (hv' : 0 < v') (ha : Denotes v w a) (hb : Denotes v' w' b) (h : Representable m (-k))
    (hquot : a * 2 ^ k = m * b) :
    UnpackedFloat.div binary64 (.finite .positive v w hv) (.finite .positive v' w' hv') =
      .finite .positive m (-k) h.pos := by
  have hm : m ≠ 0 := Nat.pos_iff_ne_zero.1 h.pos
  have hane : a ≠ 0 := ha.ne_zero (by omega)
  have hbne : b ≠ 0 := hb.ne_zero (by omega)
  have hlog : (m * b).log2 = a.log2 + k := by rw [← hquot, log2_mul_two_pow hane]
  have hle := log2_mul_le hm hbne
  have hloga := ha.log2 (by omega)
  have hlogb := hb.log2 (by omega)
  -- the exponent of the quotient is low enough for all its bits
  obtain ⟨t, ht⟩ : ∃ t, t = min (w - w') (binary64.targetExponent (totalExponent v w - totalExponent v' w')) := ⟨_, rfl⟩
  have hexp := h.exponentFor_eq
  have htarget : binary64.targetExponent (totalExponent v w - totalExponent v' w') =
      max (v.log2 + w - v'.log2 - w' - 53) (-1074) := by
    simp only [Float.Model.Format.targetExponent, totalExponent, Float.Model.Format.mantissaBits,
      Float.Model.Format.minExponent]
    omega
  have htle : t ≤ -k := by
    unfold exponentFor at hexp
    omega
  have hexact := mantissa_eq_of_quotient ha hb hquot (t := t) (by omega) htle
  have hsign : (Sign.positive / Sign.positive : Sign) = .positive := rfl
  simp only [UnpackedFloat.div, divCore, ← ht, Nat.shiftLeft_eq, hexact, Nat.mul_div_cancel _ hv', Nat.mul_mod_left,
    hsign]
  exact h.roundWithAccuracy_eq_self .positive htle

end

end PropertyExpr
