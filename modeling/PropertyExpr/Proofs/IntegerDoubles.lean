import PropertyExpr.Proofs.Shortest
/-!
# Integers as doubles

Up to `2 ^ 53` in magnitude every integer is a double, zero even two. `StandsFor x v` says that `x` is the
integer `v`. Sums, differences and products of such doubles are exact as long as they stay within the bound
(`StandsFor.add`, `StandsFor.sub`, `StandsFor.mul`), whichever zeros they are made of.
-/
namespace PropertyExpr

open Float.Model Float.Model.UnpackedFloat
open Float.Model.Format (binary64)

/-- What is unpacked is the given integer; either zero is. -/
inductive UnpacksInt : Int → UnpackedFloat → Prop where
  | zero (s : Sign) : UnpacksInt 0 (.zero s)
  | finite (s : Sign) {n m : Nat} {w : Int} (h : Representable m w) (full : 2 ^ 52 ≤ m) (denotes : Denotes m w n) :
      UnpacksInt (s.apply n) (.finite s m w h.pos)

/-- The double is the given integer. -/
def StandsFor (x : Float) (v : Int) : Prop := UnpacksInt v x.toModel.unpack

section
variable {n : Nat} {v a b : Int} {u u' : UnpackedFloat}

/-- A natural number up to `2 ^ 53` has its 53 bits. -/
theorem exists_representable (hn : n ≠ 0) (hle : n ≤ 2 ^ 53) :
    ∃ m w, Representable m w ∧ 2 ^ 52 ≤ m ∧ Denotes m w n := by
  have hrounded : rounded n = n := by
    rcases Nat.lt_or_eq_of_le hle with hlt | rfl
    · exact rounded_of_lt hlt
    · decide +kernel
  have hfits : rounded n < doubleBound := by
    rw [hrounded]
    exact Nat.lt_of_le_of_lt hle (two_pow_lt_doubleBound (by decide))
  obtain ⟨m, w, hbits, -⟩ := exists_bits hn
  have hleast := hbits.le_exponent
  refine ⟨m, w, ⟨hbits.pos, hbits.high, by omega, hbits.exponent_le_iff.2 hfits, .inl hbits.low⟩, hbits.low, ?_⟩
  rw [← hrounded]
  exact hbits.denotes

/-- Rounding keeps a natural number up to `2 ^ 53`, with either sign. -/
theorem unpacksInt_round {m : Nat} {w : Int} (hm : m ≠ 0) (hden : Denotes m w n) (hle : n ≤ 2 ^ 53) (s : Sign) :
    UnpacksInt (s.apply n) (UnpackedFloat.round binary64 s m w) := by
  have hn := hden.ne_zero hm
  obtain ⟨m', w', hrep, hfull, hden'⟩ := exists_representable hn hle
  rw [round_of_denotes hden hm, ← round_of_denotes hden' (Nat.pos_iff_ne_zero.1 hrep.pos), hrep.round_eq_self]
  exact .finite s hrep hfull hden'

/-- The magnitude of an integer mantissa denotes the magnitude. -/
theorem natAbs_of_mul_two_pow {m w : Int} (h : m * 2 ^ w.toNat = v * 2 ^ (-w).toNat) :
    Denotes m.natAbs w v.natAbs := by
  have habs := congrArg Int.natAbs h
  rwa [Int.natAbs_mul, Int.natAbs_mul, Int.natAbs_pow, Int.natAbs_pow] at habs

theorem sign_of_mul_two_pow {m w : Int} (h : m * 2 ^ w.toNat = v * 2 ^ (-w).toNat) : m.sign = v.sign := by
  have hpow (k : Nat) : Int.sign (2 ^ k) = 1 := Int.sign_eq_one_of_pos (Int.pow_pos (by decide))
  have hsign := congrArg Int.sign h
  rwa [Int.sign_mul, Int.sign_mul, hpow, hpow, Int.mul_one, Int.mul_one] at hsign

/-- An integer mantissa is rounded to the integer that it denotes. -/
theorem unpacksInt_normalize {m w : Int} (hden : m * 2 ^ w.toNat = v * 2 ^ (-w).toNat) (hle : v.natAbs ≤ 2 ^ 53)
    (s : Sign) : UnpacksInt v (UnpackedFloat.normalize binary64 m w s) := by
  have habs := natAbs_of_mul_two_pow hden
  have hsign := sign_of_mul_two_pow hden
  rw [UnpackedFloat.normalize]
  rcases lt_trichotomy m 0 with hneg | rfl | hpos
  · have hv : v < 0 := Int.sign_eq_neg_one_iff_neg.1 (hsign.symm.trans (Int.sign_eq_neg_one_of_neg hneg))
    have := unpacksInt_round (by omega) habs hle .negative
    rw [Int.compare_eq_lt.2 hneg]
    simp only
    rw [show (-m).toNat = m.natAbs by omega]
    rwa [show Sign.apply .negative (v.natAbs : Int) = v by simp only [Sign.apply]; omega] at this
  · obtain rfl : v = 0 := Int.sign_eq_zero_iff_zero.1 hsign.symm
    exact .zero s
  · have hv : 0 < v := Int.sign_eq_one_iff_pos.1 (hsign.symm.trans (Int.sign_eq_one_of_pos hpos))
    have := unpacksInt_round (by omega) habs hle .positive
    rw [Int.compare_eq_gt.2 hpos]
    simp only
    rw [show m.toNat = m.natAbs by omega]
    rwa [show Sign.apply .positive (v.natAbs : Int) = v by simp only [Sign.apply]; omega] at this

/-! ## Arithmetic -/

theorem neg_apply (s : Sign) (i : Int) : (-s).apply i = -s.apply i := by
  cases s with
  | positive => rfl
  | negative => exact (Int.neg_neg i).symm

theorem mul_apply (s s' : Sign) (i j : Int) : (s * s').apply (i * j) = s.apply i * s'.apply j := by
  cases s <;> cases s' <;> simp [Sign.apply]

theorem apply_mul (s : Sign) (i j : Int) : s.apply i * j = s.apply (i * j) := by
  cases s with
  | positive => rfl
  | negative => exact Int.neg_mul i j

theorem Denotes.apply {m : Nat} {w : Int} (h : Denotes m w n) (s : Sign) :
    s.apply m * 2 ^ w.toNat = s.apply n * 2 ^ (-w).toNat := by
  rw [apply_mul, apply_mul]
  exact congrArg s.apply (by exact_mod_cast h)

theorem natAbs_apply (s : Sign) (i : Int) : (s.apply i).natAbs = i.natAbs := by
  cases s with
  | positive => rfl
  | negative => exact Int.natAbs_neg i

theorem UnpacksInt.neg (h : UnpacksInt v u) : UnpacksInt (-v) u.neg := by
  cases h with
  | zero s => exact .zero (-s)
  | finite s hrep hfull hden =>
    rw [← neg_apply]
    exact .finite (-s) hrep hfull hden

theorem UnpacksInt.add (h : UnpacksInt a u) (h' : UnpacksInt b u') (hle : (a + b).natAbs ≤ 2 ^ 53) :
    UnpacksInt (a + b) (UnpackedFloat.add binary64 u u') := by
  cases h with
  | zero s =>
    rw [Int.zero_add]
    cases h' with
    | zero s' => cases s <;> cases s' <;> exact .zero _
    | finite s' hrep hfull hden => exact .finite s' hrep hfull hden
  | @finite s n m w hrep hfull hden =>
    cases h' with
    | zero s' =>
      rw [Int.add_zero]
      exact .finite s hrep hfull hden
    | @finite s' n' m' w' hrep' hfull' hden' =>
      simp only [UnpackedFloat.add, decreaseExponent, Nat.shiftLeft_eq]
      refine unpacksInt_normalize ?_ hle .positive
      -- both mantissas are moved to the smaller exponent
      rw [Int.add_mul, Int.add_mul, (hden.lower (min_le_left w w')).apply, (hden'.lower (min_le_right w w')).apply]

/-- Subtracting is adding what has the other sign. -/
theorem sub_eq_add_neg (u u' : UnpackedFloat) :
    UnpackedFloat.sub binary64 u u' = UnpackedFloat.add binary64 u u'.neg := by
  cases u with
  | notANumber => cases u' <;> rfl
  | infinity s => cases u' <;> rfl
  | zero s => cases u' <;> rfl
  | finite s m w hm =>
    cases u' with
    | notANumber => rfl
    | infinity s' => rfl
    | zero s' => rfl
    | finite s' m' w' hm' =>
      simp only [UnpackedFloat.sub, UnpackedFloat.add, UnpackedFloat.neg, neg_apply, Int.sub_eq_add_neg]

theorem UnpacksInt.sub (h : UnpacksInt a u) (h' : UnpacksInt b u') (hle : (a - b).natAbs ≤ 2 ^ 53) :
    UnpacksInt (a - b) (UnpackedFloat.sub binary64 u u') := by
  rw [sub_eq_add_neg]
  exact h.add h'.neg hle

theorem UnpacksInt.mul (h : UnpacksInt a u) (h' : UnpacksInt b u') (hle : (a * b).natAbs ≤ 2 ^ 53) :
    UnpacksInt (a * b) (UnpackedFloat.mul binary64 u u') := by
  cases h with
  | zero s =>
    rw [Int.zero_mul]
    cases h' <;> exact .zero _
  | @finite s n m w hrep hfull hden =>
    cases h' with
    | zero s' =>
      rw [Int.mul_zero]
      exact .zero _
    | @finite s' n' m' w' hrep' hfull' hden' =>
      have hlog : 52 ≤ (m * m').log2 := by
        rw [Nat.le_log2 (Nat.mul_ne_zero (by omega) (by omega))]
        exact Nat.le_trans hfull (Nat.le_mul_of_pos_right m hrep'.pos)
      have hprod : s.apply n * s'.apply n' = (s * s').apply ((n * n' : Nat) : Int) := by
        rw [Int.natCast_mul, mul_apply]
      rw [hprod] at hle ⊢
      rw [natAbs_apply, Int.natAbs_natCast] at hle
      show UnpacksInt _ (roundWithAccuracy binary64 (s * s') (m * m') (w + w') .exact)
      rw [roundWithAccuracy_eq_round _ _ _ hlog]
      exact unpacksInt_round (Nat.mul_ne_zero (by omega) (by omega)) (hden.mul hden') hle (s * s')

/-- Packing loses nothing. -/
theorem UnpacksInt.repack (h : UnpacksInt v u) :
    UnpacksInt v (UnpackedFloat.unpack binary64 (UnpackedFloat.pack binary64 u)) := by
  cases h with
  | zero s =>
    rw [show UnpackedFloat.unpack binary64 (UnpackedFloat.pack binary64 (.zero s)) = .zero s from unpack_packedZero]
    exact .zero s
  | finite s hrep hfull hden =>
    rw [hrep.unpack_pack]
    exact .finite s hrep hfull hden

theorem apply_natCast_inj {s s' : Sign} {n n' : Nat} (hn : n ≠ 0) (h : s.apply n = s'.apply n') : s = s' ∧ n = n' := by
  have habs := congrArg Int.natAbs h
  rw [natAbs_apply, natAbs_apply, Int.natAbs_natCast, Int.natAbs_natCast] at habs
  subst habs
  refine ⟨?_, rfl⟩
  cases s <;> cases s' <;> simp only [Sign.apply] at h <;> first | rfl | omega

/-- An integer other than zero is unpacked in one way. -/
theorem UnpacksInt.eq_or_zero (h : UnpacksInt v u) (h' : UnpacksInt v u') :
    u = u' ∨ ∃ s s', u = .zero s ∧ u' = .zero s' := by
  have hne {n m : Nat} {w : Int} (hrep : Representable m w) (hden : Denotes m w n) : n ≠ 0 :=
    hden.ne_zero (Nat.pos_iff_ne_zero.1 hrep.pos)
  generalize hv' : v = v' at h'
  cases h with
  | zero s =>
    cases h' with
    | zero s' => exact .inr ⟨s, s', rfl, rfl⟩
    | @finite s' n' m' w' hrep' hfull' hden' =>
      have := congrArg Int.natAbs hv'
      rw [natAbs_apply] at this
      exact absurd this.symm (hne hrep' hden')
  | @finite s n m w hrep hfull hden =>
    cases h' with
    | zero s' =>
      have := congrArg Int.natAbs hv'
      rw [natAbs_apply] at this
      exact absurd this (hne hrep hden)
    | @finite s' n' m' w' hrep' hfull' hden' =>
      obtain ⟨rfl, rfl⟩ := apply_natCast_inj (hne hrep hden) hv'
      left
      rw [← hrep.round_eq_self, ← hrep'.round_eq_self,
        round_of_denotes hden (Nat.pos_iff_ne_zero.1 hrep.pos),
        round_of_denotes hden' (Nat.pos_iff_ne_zero.1 hrep'.pos)]

/-! ## Doubles that stand for integers -/

namespace StandsFor

variable {x y : Float}

theorem add (h : StandsFor x a) (h' : StandsFor y b) (hle : (a + b).natAbs ≤ 2 ^ 53) : StandsFor (x + y) (a + b) :=
  (UnpacksInt.add h h' hle).repack

theorem sub (h : StandsFor x a) (h' : StandsFor y b) (hle : (a - b).natAbs ≤ 2 ^ 53) : StandsFor (x - y) (a - b) :=
  (UnpacksInt.sub h h' hle).repack

theorem mul (h : StandsFor x a) (h' : StandsFor y b) (hle : (a * b).natAbs ≤ 2 ^ 53) : StandsFor (x * y) (a * b) :=
  (UnpacksInt.mul h h' hle).repack

theorem neg (h : StandsFor x a) : StandsFor (-x) (-a) := (UnpacksInt.neg h).repack

theorem ofNat (hle : n ≤ 2 ^ 53) : StandsFor (Float.ofNat n) n := by
  rcases Nat.eq_zero_or_pos n with rfl | hpos
  · exact .zero .positive
  · obtain ⟨m, w, hrep, hfull, hden⟩ := exists_representable (Nat.pos_iff_ne_zero.1 hpos) hle
    rw [StandsFor, hrep.unpack_ofNat hden]
    exact .finite .positive hrep hfull hden

theorem ofInt (hle : v.natAbs ≤ 2 ^ 53) : StandsFor (Float.ofInt v) v := by
  cases v with
  | ofNat n => exact ofNat hle
  | negSucc n => exact (ofNat (n := n + 1) hle).neg

/-- A double that stands for an integer is its double, but for the sign of a zero. -/
theorem beq_ofInt (h : StandsFor x v) (hle : v.natAbs ≤ 2 ^ 53) : x == Float.ofInt v := by
  show x.toModel.unpack.beq (Float.ofInt v).toModel.unpack = true
  have hint := ofInt hle
  have hnumber {u : UnpackedFloat} (h : UnpacksInt v u) : u ≠ .notANumber := by
    rintro rfl
    cases h
  rw [beq_iff_ne_notANumber_and_eq]
  refine ⟨hnumber h, hnumber hint, ?_⟩
  rcases UnpacksInt.eq_or_zero h hint with heq | ⟨s, s', hs, hs'⟩
  · exact .inl heq
  · rw [hs, hs']
    cases s <;> cases s' <;> simp

end StandsFor

end

end PropertyExpr
