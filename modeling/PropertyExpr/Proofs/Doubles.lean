import Mathlib
import PropertyExpr.Proofs.Rounding
/-!
# Natural numbers as doubles

`Float.ofNat n` is the double that stands for `rounded n`, or infinity if that needs more than 1024 bits. Sums
and products of such doubles are the doubles of the sum and of the product (`ofNat_add_ofNat`,
`ofNat_mul_ofNat`), and two of them are equal only if they stand for the same number, or are both infinite
(`ofNat_inj_iff`).

Arithmetic on doubles takes them apart into a mantissa and an exponent, computes exactly, and rounds. What the
rounding gives depends only on the number that mantissa and exponent denote (`round_of_denotes`).
-/
namespace PropertyExpr

open Float.Model Float.Model.UnpackedFloat
open Float.Model.Format (binary64)

section Shift

/-- A mantissa shifted to the right keeps the bit behind it, and whether there is one behind that. -/
theorem shiftRight_succ (m s : Nat) : (⟨m, false, false⟩ : ExtendedMantissa) >>> (s + 1) =
    ⟨m / 2 ^ (s + 1), m / 2 ^ s % 2 != 0, m % 2 ^ s != 0⟩ := by
  induction s with
  | zero => simp [HShiftRight.hShiftRight, Nat.repeat, ExtendedMantissa.shiftRightOne, Nat.mod_one]
  | succ s ih =>
    change ((⟨m, false, false⟩ : ExtendedMantissa) >>> (s + 1)).shiftRightOne = _
    have hsticky : m % 2 ^ (s + 1) = m % 2 ^ s + 2 ^ s * (m / 2 ^ s % 2) := by rw [Nat.pow_succ, Nat.mod_mul]
    rw [ih, hsticky]
    simp only [ExtendedMantissa.shiftRightOne, Nat.div_div_eq_div_mul, ← Nat.pow_succ]
    congr 1
    have := Nat.two_pow_pos s
    rcases Nat.mod_two_eq_zero_or_one (m / 2 ^ s) with h | h <;> simp [h]

/-- To shift a mantissa and to round it is to round the quotient. -/
theorem roundedMantissa_shiftRight (m s : Nat) :
    ((⟨m, false, false⟩ : ExtendedMantissa) >>> s).roundedMantissa = roundedQuotient m s := by
  cases s with
  | zero => simp [HShiftRight.hShiftRight, Nat.repeat, ExtendedMantissa.roundedMantissa,
      ExtendedMantissa.accuracy, Accuracy.roundToNearestEven, roundedQuotient, Nat.mod_one]
  | succ s =>
    rw [shiftRight_succ]
    have hrem : m % 2 ^ (s + 1) = m % 2 ^ s + 2 ^ s * (m / 2 ^ s % 2) := by rw [Nat.pow_succ, Nat.mod_mul]
    have hpow : 2 ^ (s + 1) = 2 * 2 ^ s := by rw [Nat.pow_succ, Nat.mul_comm]
    have hlt := Nat.mod_lt m (Nat.two_pow_pos s)
    simp only [ExtendedMantissa.roundedMantissa]
    unfold roundedQuotient
    rw [hrem, hpow]
    rcases Nat.mod_two_eq_zero_or_one (m / 2 ^ s) with hbit | hbit <;>
      rcases Nat.eq_zero_or_pos (m % 2 ^ s) with hsticky | hsticky
    · rw [hbit, hsticky, if_pos (by omega)]
      simp [ExtendedMantissa.accuracy, Accuracy.roundToNearestEven]
    · have hne : (m % 2 ^ s != 0) = true := bne_iff_ne.2 (Nat.ne_of_gt hsticky)
      rw [hbit, hne, if_pos (by omega)]
      simp [ExtendedMantissa.accuracy, Accuracy.roundToNearestEven]
    · rw [hbit, hsticky, if_neg (by omega), if_pos (by omega)]
      simp [ExtendedMantissa.accuracy, Accuracy.roundToNearestEven]
    · have hne : (m % 2 ^ s != 0) = true := bne_iff_ne.2 (Nat.ne_of_gt hsticky)
      rw [hbit, hne, if_neg (by omega), if_neg (by omega)]
      simp [ExtendedMantissa.accuracy, Accuracy.roundToNearestEven]

end Shift

section Round

variable (s : Sign) (m : Nat) (e : Int)

/-- The exponent with which 53 bits of `m · 2 ^ e` are kept, or fewer if it is very small. -/
def exponentFor (m : Nat) (e : Int) : Int := max (m.log2 + e - 52) (-1074)

theorem targetExponent_eq : binary64.targetExponent (totalExponent m e) = exponentFor m e := by
  simp only [Float.Model.Format.targetExponent, totalExponent, Float.Model.Format.mantissaBits,
    Float.Model.Format.minExponent, exponentFor]
  omega

/-- It depends on the number, and not on where the zeros of it are. -/
theorem exponentFor_mul_two_pow {m : Nat} (hm : m ≠ 0) (k : Nat) (e : Int) :
    exponentFor (m * 2 ^ k) e = exponentFor m (e + k) := by
  rw [exponentFor, log2_mul_two_pow hm, exponentFor]
  omega

theorem shiftToExponent_exact (t : Int) : shiftToExponent m e .exact t =
    ((⟨m, false, false⟩ : ExtendedMantissa) >>> (t - e).toNat, e + (t - e).toNat) := rfl

/-- Shifting after the rounding only undoes a carry. -/
theorem shiftToTargetExponent_of_le {v : Nat} {w : Int} (hv : v ≤ 2 ^ 53) (hw : -1074 ≤ w) :
    shiftToTargetExponent binary64 v w .exact =
      if v < 2 ^ 53 then (⟨v, false, false⟩, w) else (⟨2 ^ 52, false, false⟩, w + 1) := by
  rw [shiftToTargetExponent, targetExponent_eq, shiftToExponent_exact]
  rcases Nat.lt_or_eq_of_le hv with hlt | rfl
  · have hlog : v.log2 ≤ 52 := by
      rcases Nat.eq_zero_or_pos v with rfl | hpos
      · decide
      · exact Nat.le_of_lt_succ ((Nat.log2_lt (Nat.pos_iff_ne_zero.1 hpos)).2 hlt)
    have hshift : (exponentFor v w - w).toNat = 0 := by
      unfold exponentFor
      omega
    rw [hshift, if_pos hlt]
    exact Prod.ext rfl (Int.add_zero w)
  · have hshift : (exponentFor (2 ^ 53) w - w).toNat = 1 := by
      unfold exponentFor
      rw [Nat.log2_two_pow]
      omega
    rw [hshift, if_neg (Nat.lt_irrefl _)]
    exact Prod.ext rfl rfl

/-- `v · 2 ^ w`, where the rounding may have made of 53 bits a power of two. -/
def carried (s : Sign) (v : Nat) (w : Int) : UnpackedFloat :=
  if hv : v = 0 then .zero s
  else if v < 2 ^ 53 then .finite s v w (Nat.pos_of_ne_zero hv)
  else .finite s (2 ^ 52) (w + 1) (by decide)

theorem roundWithAccuracy_eq : roundWithAccuracy binary64 s m e .exact =
    carried s (roundedQuotient m (exponentFor m e - e).toNat) (e + (exponentFor m e - e).toNat) := by
  have hfirst : shiftToTargetExponent binary64 m e .exact =
      ((⟨m, false, false⟩ : ExtendedMantissa) >>> (exponentFor m e - e).toNat,
        e + (exponentFor m e - e).toNat) := by
    rw [shiftToTargetExponent, targetExponent_eq, shiftToExponent_exact]
  have hexp : max (m.log2 + e - 52) (-1074) ≤ e + (exponentFor m e - e).toNat := by
    unfold exponentFor
    omega
  generalize (exponentFor m e - e).toNat = k at hfirst hexp
  have hquot : m / 2 ^ k < 2 ^ 53 := by
    rw [Nat.div_lt_iff_lt_mul (Nat.two_pow_pos k), ← Nat.pow_add]
    exact Nat.lt_of_lt_of_le Nat.lt_log2_self (Nat.pow_le_pow_right (by decide) (by omega))
  have hle : roundedQuotient m k ≤ 2 ^ 53 := Nat.le_trans roundedQuotient_le hquot
  simp only [roundWithAccuracy, hfirst, roundedMantissa_shiftRight]
  simp only [shiftToTargetExponent_of_le hle (show -1074 ≤ e + (k : Int) by omega), carried]
  by_cases hlt : roundedQuotient m k < 2 ^ 53
  · simp only [if_pos hlt]
  · simp only [if_neg hlt]
    rw [dif_neg (by decide), dif_neg (by omega)]

/-- No zeros are put behind a mantissa whose exponent is low enough. -/
theorem roundWithAccuracy_eq_round_of_le (h : e ≤ exponentFor m e) :
    roundWithAccuracy binary64 s m e .exact = UnpackedFloat.round binary64 s m e := by
  have hshift : (e - exponentFor m e).toNat = 0 := by omega
  rw [UnpackedFloat.round, targetExponent_eq]
  simp [decreaseExponent, hshift]

theorem roundWithAccuracy_eq_round (h : 52 ≤ m.log2) :
    roundWithAccuracy binary64 s m e .exact = UnpackedFloat.round binary64 s m e := by
  apply roundWithAccuracy_eq_round_of_le
  unfold exponentFor
  omega

/-- The 53 bits of `m · 2 ^ e` from the exponent `t` on. -/
def bitsFrom (t : Int) (m : Nat) (e : Int) : Nat := roundedQuotient (m * 2 ^ (e - t).toNat) (t - e).toNat

theorem round_eq (hm : m ≠ 0) :
    UnpackedFloat.round binary64 s m e = carried s (bitsFrom (exponentFor m e) m e) (exponentFor m e) := by
  have hmin : exponentFor (m * 2 ^ (e - exponentFor m e).toNat) (e - (e - exponentFor m e).toNat) =
      exponentFor m e := by
    rw [exponentFor_mul_two_pow hm, Int.sub_add_cancel]
  rw [UnpackedFloat.round, targetExponent_eq]
  simp only [decreaseExponent, Nat.shiftLeft_eq]
  rw [roundWithAccuracy_eq, hmin, bitsFrom]
  congr 2 <;> omega

/-- Zeros may move from the mantissa into the exponent. -/
theorem round_mul_two_pow (k : Nat) (hm : m ≠ 0) :
    UnpackedFloat.round binary64 s (m * 2 ^ k) e = UnpackedFloat.round binary64 s m (e + k) := by
  have hne : m * 2 ^ k ≠ 0 := Nat.mul_ne_zero hm (Nat.pos_iff_ne_zero.1 (Nat.two_pow_pos k))
  rw [round_eq s _ _ hne, round_eq s _ _ hm, exponentFor_mul_two_pow hm]
  generalize exponentFor m (e + k) = t
  congr 1
  -- what both sides have in common is cancelled in the quotient
  obtain ⟨c, hc⟩ : ∃ c, (t - e).toNat = (t - (e + k)).toNat + c := ⟨(t - e).toNat - (t - (e + k)).toNat, by omega⟩
  have hsum : k + (e - t).toNat = (e + k - t).toNat + c := by omega
  rw [bitsFrom, bitsFrom, hc, Nat.mul_assoc, ← Nat.pow_add, hsum, Nat.pow_add, ← Nat.mul_assoc,
    roundedQuotient_mul_two_pow]

/-- A mantissa that has its exponent already is kept. -/
theorem round_of_exponentFor_eq {v : Nat} {w : Int} (hpos : 0 < v) (hhigh : v < 2 ^ 53) (hexp : exponentFor v w = w) :
    UnpackedFloat.round binary64 s v w = .finite s v w hpos := by
  rw [round_eq s v w (by omega), hexp, bitsFrom, Int.sub_self, Int.toNat_zero, Nat.pow_zero, Nat.mul_one,
    roundedQuotient_of_mod_eq_zero (Nat.mod_one v), Nat.pow_zero, Nat.div_one, carried, dif_neg (by omega),
    if_pos hhigh]

/-- 53 bits are kept. -/
theorem round_of_bits {v : Nat} {w : Int} (hlow : 2 ^ 52 ≤ v) (hhigh : v < 2 ^ 53) (hw : -1074 ≤ w) :
    UnpackedFloat.round binary64 s v w = .finite s v w (by omega) := by
  have hlog : v.log2 = 52 := (Nat.log2_eq_iff (by omega)).2 ⟨hlow, hhigh⟩
  apply round_of_exponentFor_eq s _ hhigh
  rw [exponentFor, hlog]
  omega

end Round

section Denotes

variable {v v' n a b : Nat} {w w' : Int}

/-- `v · 2 ^ w` is the natural number `n`. -/
def Denotes (v : Nat) (w : Int) (n : Nat) : Prop := v * 2 ^ w.toNat = n * 2 ^ (-w).toNat

theorem denotes_iff {i j : Nat} (h : w = i - j) : Denotes v w n ↔ v * 2 ^ i = n * 2 ^ j := by
  obtain ⟨c, rfl, rfl⟩ : ∃ c, i = w.toNat + c ∧ j = (-w).toNat + c := ⟨i - w.toNat, by omega, by omega⟩
  rw [Denotes, Nat.pow_add, Nat.pow_add, ← Nat.mul_assoc, ← Nat.mul_assoc,
    Nat.mul_left_inj (Nat.pos_iff_ne_zero.1 (Nat.two_pow_pos c))]

theorem Denotes.unique (ha : Denotes v w a) (hb : Denotes v w b) : a = b :=
  Nat.eq_of_mul_eq_mul_right (Nat.two_pow_pos _) (ha.symm.trans hb)

theorem Denotes.mul (ha : Denotes v w a) (hb : Denotes v' w' b) : Denotes (v * v') (w + w') (a * b) := by
  rw [denotes_iff (i := w.toNat + w'.toNat) (j := (-w).toNat + (-w').toNat) (by omega), Nat.pow_add, Nat.pow_add]
  calc v * v' * (2 ^ w.toNat * 2 ^ w'.toNat) = v * 2 ^ w.toNat * (v' * 2 ^ w'.toNat) := by ac_rfl
    _ = a * 2 ^ (-w).toNat * (b * 2 ^ (-w').toNat) := by rw [ha, hb]
    _ = a * b * (2 ^ (-w).toNat * 2 ^ (-w').toNat) := by ac_rfl

theorem Denotes.add (ha : Denotes v w a) (hb : Denotes v' w b) : Denotes (v + v') w (a + b) := by
  unfold Denotes at ha hb ⊢
  rw [Nat.add_mul, Nat.add_mul, ha, hb]

theorem Denotes.mul_two_pow (h : Denotes v w n) (k : Nat) : Denotes (v * 2 ^ k) (w - k) n := by
  rw [denotes_iff (i := w.toNat) (j := (-w).toNat + k) (by omega), Nat.pow_add, ← Nat.mul_assoc, ← h]
  exact Nat.mul_right_comm v _ _

/-- The mantissa is moved to a smaller exponent. -/
theorem Denotes.lower {e : Int} (h : Denotes v w n) (he : e ≤ w) : Denotes (v * 2 ^ (w - e).toNat) e n := by
  have hmoved := h.mul_two_pow (w - e).toNat
  rwa [show w - ((w - e).toNat : Nat) = e by omega] at hmoved

theorem Denotes.mul_two_pow_right (h : Denotes v w n) (k : Nat) : Denotes v (w + k) (n * 2 ^ k) := by
  rw [denotes_iff (i := w.toNat + k) (j := (-w).toNat) (by omega), Nat.pow_add, ← Nat.mul_assoc, h]
  exact Nat.mul_right_comm n _ _

/-- Two forms of a number have the same mantissa once they have the same exponent. -/
theorem Denotes.left_unique {r : Int} (h : Denotes v w n) (h' : Denotes v' w' n) (hr : r ≤ w) (hr' : r ≤ w') :
    v * 2 ^ (w - r).toNat = v' * 2 ^ (w' - r).toNat :=
  Nat.eq_of_mul_eq_mul_right (Nat.two_pow_pos r.toNat) (Eq.trans (h.lower hr) (h'.lower hr').symm)

theorem Denotes.ne_zero (h : Denotes v w n) (hv : v ≠ 0) : n ≠ 0 := by
  rintro rfl
  have := Nat.mul_ne_zero hv (Nat.pos_iff_ne_zero.1 (Nat.two_pow_pos w.toNat))
  exact this (by rw [h, Nat.zero_mul])

theorem Denotes.log2 (h : Denotes v w n) (hv : v ≠ 0) : (n.log2 : Int) = v.log2 + w := by
  have hboth : (v * 2 ^ w.toNat).log2 = (n * 2 ^ (-w).toNat).log2 := congrArg Nat.log2 h
  rw [log2_mul_two_pow hv, log2_mul_two_pow (h.ne_zero hv)] at hboth
  omega

/-- What the rounding gives is decided by the number that mantissa and exponent denote. -/
theorem round_of_denotes (h : Denotes v w n) (hv : v ≠ 0) (s : Sign) :
    UnpackedFloat.round binary64 s v w = UnpackedFloat.round binary64 s n 0 := by
  have hw : w = w - w.toNat + w.toNat := by omega
  have hzero : w - w.toNat + (-w).toNat = 0 := by omega
  rw [hw, ← round_mul_two_pow s v _ _ hv, h, round_mul_two_pow s n _ _ (h.ne_zero hv), hzero]

end Denotes

section Natural

variable {n : Nat}

theorem normalize_natCast (m : Nat) (hm : m ≠ 0) (e : Int) (s : Sign) :
    UnpackedFloat.normalize binary64 (m : Int) e s = UnpackedFloat.round binary64 .positive m e := by
  have : compare (m : Int) 0 = .gt := Std.compare_eq_gt.2 (by omega)
  simp [UnpackedFloat.normalize, this]

theorem ofNat_eq_round (hn : n ≠ 0) : UnpackedFloat.ofNat binary64 n = UnpackedFloat.round binary64 .positive n 0 :=
  normalize_natCast n hn 0 .positive

/-- From here on numbers are too large for a double. -/
def doubleBound : Nat := 2 ^ 1024

theorem lt_doubleBound_iff (hn : n ≠ 0) : n < doubleBound ↔ n.log2 < 1024 := by
  have hlog (k : Nat) : n < 2 ^ k ↔ n.log2 < k := (Nat.log2_lt hn).symm
  exact hlog 1024

theorem doubleBound_le_iff (hn : n ≠ 0) : doubleBound ≤ n ↔ 1024 ≤ n.log2 := by
  rw [← Nat.not_lt, lt_doubleBound_iff hn, Nat.not_lt]

theorem two_pow_lt_doubleBound {k : Nat} (hk : k < 1024) : 2 ^ k < doubleBound := by
  rwa [lt_doubleBound_iff (Nat.pos_iff_ne_zero.1 (Nat.two_pow_pos k)), Nat.log2_two_pow]

/-- `v` and `w` are the 53 bits of the number that `n` is rounded to, and their exponent. -/
structure Bits (n v : Nat) (w : Int) : Prop where
  low : 2 ^ 52 ≤ v
  high : v < 2 ^ 53
  denotes : Denotes v w (rounded n)

namespace Bits

variable {v : Nat} {w : Int} (h : Bits n v w)

include h

theorem ne_zero : v ≠ 0 := by have := h.low; omega

theorem pos : 0 < v := by have := h.low; omega

theorem rounded_ne_zero : rounded n ≠ 0 := h.denotes.ne_zero h.ne_zero

theorem log2_rounded : ((rounded n).log2 : Int) = 52 + w := by
  have hlog : v.log2 = 52 := (Nat.log2_eq_iff h.ne_zero).2 ⟨h.low, h.high⟩
  have := h.denotes.log2 h.ne_zero
  omega

theorem le_exponent : -52 ≤ w := by
  have := h.log2_rounded
  omega

theorem exponent_le_iff : w ≤ 971 ↔ rounded n < doubleBound := by
  rw [lt_doubleBound_iff h.rounded_ne_zero]
  have := h.log2_rounded
  omega

theorem round_rounded : UnpackedFloat.round binary64 .positive (rounded n) 0 = .finite .positive v w h.pos := by
  have := h.le_exponent
  rw [← round_of_denotes h.denotes h.ne_zero, round_of_bits _ h.low h.high (by omega)]

end Bits

/-- Every number but zero has its 53 bits, and they are what it is rounded to. -/
theorem exists_bits (hn : n ≠ 0) :
    ∃ v w, ∃ h : Bits n v w, UnpackedFloat.round binary64 .positive n 0 = .finite .positive v w h.pos := by
  have hexp : exponentFor n 0 = n.log2 - 52 := by
    unfold exponentFor
    omega
  rcases Nat.lt_or_ge n (2 ^ 53) with hlt | hge
  · -- a number of 53 bits is moved to the left
    have hlog := (Nat.log2_lt hn).2 hlt
    have hlow : 2 ^ 52 ≤ n * 2 ^ (52 - n.log2) := by
      calc 2 ^ 52 = 2 ^ n.log2 * 2 ^ (52 - n.log2) := by rw [← Nat.pow_add]; congr 1; omega
        _ ≤ n * 2 ^ (52 - n.log2) := Nat.mul_le_mul_right _ (Nat.log2_self_le hn)
    have hhigh : n * 2 ^ (52 - n.log2) < 2 ^ 53 := by
      calc n * 2 ^ (52 - n.log2) < 2 ^ (n.log2 + 1) * 2 ^ (52 - n.log2) :=
            Nat.mul_lt_mul_of_pos_right Nat.lt_log2_self (Nat.two_pow_pos _)
        _ = 2 ^ 53 := by rw [← Nat.pow_add]; congr 1; omega
    have hden : Denotes (n * 2 ^ (52 - n.log2)) (n.log2 - 52) n := by
      rw [denotes_iff (i := 0) (j := 52 - n.log2) (by omega), Nat.pow_zero, Nat.mul_one]
    have hbits : Bits n _ _ := ⟨hlow, hhigh, by rwa [rounded_of_lt hlt]⟩
    refine ⟨_, _, hbits, ?_⟩
    rw [← hbits.round_rounded, rounded_of_lt hlt]
  · -- of a longer one the spare bits are dropped
    obtain ⟨v, hv, hlow, hhigh⟩ := exists_rounded_eq hge
    have hspare : (exponentFor n 0).toNat = spareBits n ∧ exponentFor n 0 = spareBits n := by
      have := log2_of_two_pow_le hge
      omega
    have hquot : bitsFrom (exponentFor n 0) n 0 = v := by
      have hquot : v = roundedQuotient n (spareBits n) :=
        Nat.eq_of_mul_eq_mul_right (Nat.two_pow_pos _) (hv.symm.trans rfl)
      rw [bitsFrom, Int.sub_zero, hspare.1, hspare.2, Int.zero_sub, Int.toNat_neg_natCast, Nat.pow_zero,
        Nat.mul_one, hquot]
    rw [round_eq _ _ _ hn, hquot, hspare.2, carried, dif_neg (by omega)]
    rcases Nat.lt_or_eq_of_le hhigh with hlt | rfl
    · refine ⟨v, spareBits n, ⟨hlow, hlt, ?_⟩, if_pos hlt⟩
      rw [denotes_iff (i := spareBits n) (j := 0) (by omega), hv, Nat.pow_zero, Nat.mul_one]
    · refine ⟨2 ^ 52, spareBits n + 1, ⟨by decide, by decide, ?_⟩, if_neg (by decide)⟩
      rw [denotes_iff (i := spareBits n + 1) (j := 0) (by omega), hv, Nat.pow_succ 2 (spareBits n)]
      omega

end Natural

section Pack

/-- The bits behind the first one of 53. -/
theorem toNat_one_append (m : BitVec 52) : (1#1 ++ m).toNat = 2 ^ 52 + m.toNat := by
  rw [BitVec.toNat_append, ← Nat.shiftLeft_add_eq_or_of_lt m.isLt]
  rfl

/-- 53 bits survive, unless the exponent is too large. -/
theorem unpack_pack_finite {s : Sign} {v : Nat} {w : Int} (hlow : 2 ^ 52 ≤ v) (hhigh : v < 2 ^ 53) (hw : -1074 ≤ w) :
    unpack binary64 (pack binary64 (.finite s v w (by omega))) =
      if w ≤ 971 then .finite s v w (by omega) else .infinity s := by
  have hlog : v.log2 = 52 := (Nat.log2_eq_iff (by omega)).2 ⟨hlow, hhigh⟩
  have hbias : (w + binary64.exponentBias + binary64.mantissaBitsWithoutImplicit).toNat = (w + 1075).toNat := by
    show (w + (1023 : Nat) + (52 : Nat)).toNat = _
    omega
  rw [UnpackedFloat.pack]
  simp only [hlog, hbias]
  by_cases hfits : w ≤ 971
  · rw [if_neg (by omega), if_pos (show 52 + 1 = binary64.mantissaBits from rfl), if_pos hfits]
    have hexp : (BitVec.ofNat 11 (w + 1075).toNat).toNat = (w + 1075).toNat := by
      rw [BitVec.toNat_ofNat, Nat.mod_eq_of_lt (by omega)]
    have hfull : BitVec.ofNat 11 (w + 1075).toNat ≠ -1#11 := fun h => by
      have : (w + 1075).toNat = 2047 := by rw [← hexp, h]; rfl
      omega
    have hzero : BitVec.ofNat 11 (w + 1075).toNat ≠ 0#11 := fun h => by
      have : (w + 1075).toNat = 0 := by rw [← hexp, h]; rfl
      omega
    have hmantissa : (1#1 ++ BitVec.ofNat 52 v).toNat = v := by
      rw [toNat_one_append, BitVec.toNat_ofNat]
      omega
    rw [UnpackedFloat.unpack]
    simp only [unpackMantissa_packComponents, unpackExponent_packComponents, unpackSign_packComponents,
      Sign.ofBitVec_toBitVec, if_neg hfull, if_neg hzero, hmantissa, hexp]
    congr 1
    show ((w + 1075).toNat : Int) - ((1023 : Nat) + (52 : Nat)) = w
    omega
  · rw [if_pos (by omega), if_neg hfits]
    cases s <;> rfl

end Pack

section Arithmetic

variable {a b n : Nat} {u : UnpackedFloat}

/-- What the double of a natural number is unpacked to. -/
inductive Unpacks : Nat → UnpackedFloat → Prop
  | zero : Unpacks 0 (.zero .positive)
  | finite {n v : Nat} {w : Int} (h : Bits n v w) (hfits : rounded n < doubleBound) :
      Unpacks n (.finite .positive v w h.pos)
  | infinite {n : Nat} (h : doubleBound ≤ rounded n) : Unpacks n (.infinity .positive)

theorem unpack_pack_of_bits {v : Nat} {w : Int} (h : Bits n v w) :
    Unpacks n (UnpackedFloat.unpack binary64 (UnpackedFloat.pack binary64 (.finite .positive v w h.pos))) := by
  have := h.le_exponent
  rw [unpack_pack_finite h.low h.high (by omega)]
  split
  next hfits => exact .finite h (h.exponent_le_iff.1 hfits)
  next hlarge => exact .infinite (Nat.not_lt.1 (mt h.exponent_le_iff.2 hlarge))

theorem unpacks_ofNat (n : Nat) : Unpacks n (Float.Model.ofNat n).unpack := by
  rcases Nat.eq_zero_or_pos n with rfl | hn
  · exact .zero
  · obtain ⟨v, w, h, hround⟩ := exists_bits (Nat.pos_iff_ne_zero.1 hn)
    show Unpacks n (UnpackedFloat.unpack binary64 (UnpackedFloat.pack binary64 (UnpackedFloat.ofNat binary64 n)))
    rw [ofNat_eq_round (Nat.pos_iff_ne_zero.1 hn), hround]
    exact unpack_pack_of_bits h

/-- The double of a number is that of the number it is rounded to. -/
theorem model_ofNat_rounded (n : Nat) : Float.Model.ofNat (rounded n) = Float.Model.ofNat n := by
  rcases Nat.eq_zero_or_pos n with rfl | hn
  · rfl
  · obtain ⟨v, w, h, hround⟩ := exists_bits (Nat.pos_iff_ne_zero.1 hn)
    rw [Float.Model.ofNat, ofNat_eq_round h.rounded_ne_zero, h.round_rounded, Float.Model.ofNat,
      ofNat_eq_round (Nat.pos_iff_ne_zero.1 hn), hround]

theorem ne_zero_of_doubleBound_le (h : doubleBound ≤ rounded n) : n ≠ 0 := by
  rintro rfl
  have := two_pow_lt_doubleBound (k := 0) (by decide)
  exact absurd (Nat.lt_of_lt_of_le this h) (by decide)

theorem pack_of_unpacks (h : Unpacks n u) : Float.Model.pack u = Float.Model.ofNat n := by
  cases h with
  | zero => rfl
  | finite h hfits => rw [← model_ofNat_rounded, Float.Model.ofNat, ofNat_eq_round h.rounded_ne_zero, h.round_rounded]
  | infinite hlarge =>
    have hn := ne_zero_of_doubleBound_le hlarge
    obtain ⟨v, w, h, hround⟩ := exists_bits hn
    have hw : 971 < w := Int.not_le.1 (mt h.exponent_le_iff.1 (Nat.not_lt.2 hlarge))
    rw [Float.Model.ofNat, ofNat_eq_round hn, hround]
    simp only [Float.Model.pack, UnpackedFloat.pack]
    congr 2
    rw [if_pos]
    show 2 ^ 11 ≤ (w + (1023 : Nat) + (52 : Nat)).toNat + 1
    omega

theorem rounded_lt_doubleBound (h : n < 2 ^ 53) : rounded n < doubleBound := by
  rw [rounded_of_lt h]
  exact Nat.lt_trans h (two_pow_lt_doubleBound (by decide))

/-- What is too large is not rounded to less. -/
theorem doubleBound_le_rounded (hn : n ≠ 0) (h : doubleBound ≤ n) : doubleBound ≤ rounded n := by
  rw [doubleBound_le_iff hn] at h
  rw [doubleBound_le_iff (Nat.pos_iff_ne_zero.1 (rounded_pos hn))]
  exact Nat.le_trans h (log2_le_log2_rounded hn)

theorem model_ofNat_mul (a : Nat) (hb : b ≠ 0) (hfits : rounded b < doubleBound) :
    Float.Model.ofNat a * Float.Model.ofNat b = Float.Model.ofNat (rounded a * rounded b) := by
  show Float.Model.pack (UnpackedFloat.mul binary64 (Float.Model.ofNat a).unpack (Float.Model.ofNat b).unpack) = _
  have hua := unpacks_ofNat a
  have hub := unpacks_ofNat b
  generalize (Float.Model.ofNat a).unpack = ua at hua
  generalize (Float.Model.ofNat b).unpack = ub at hub
  cases hub with
  | zero => exact absurd rfl hb
  | infinite hlarge => exact absurd hlarge (Nat.not_le.2 hfits)
  | @finite _ v' w' hbits' =>
    cases hua with
    | zero =>
      rw [rounded_of_lt (by decide), Nat.zero_mul]
      exact pack_of_unpacks .zero
    | infinite hlarge =>
      have ha := rounded_pos (ne_zero_of_doubleBound_le hlarge)
      have hprod := Nat.mul_pos ha (rounded_pos hb)
      refine pack_of_unpacks (.infinite (doubleBound_le_rounded (by omega) (Nat.le_trans hlarge ?_)))
      exact Nat.le_mul_of_pos_right _ (rounded_pos hb)
    | @finite _ v w hbits =>
      have hprod : 2 ^ 52 * 2 ^ 52 ≤ v * v' := Nat.mul_le_mul hbits.low hbits'.low
      have hlog : 52 ≤ (v * v').log2 := (Nat.le_log2 (by omega)).2 (by omega)
      show Float.Model.pack (roundWithAccuracy binary64 .positive (v * v') (w + w') .exact) = _
      rw [roundWithAccuracy_eq_round _ _ _ hlog, round_of_denotes (hbits.denotes.mul hbits'.denotes) (by omega),
        ← ofNat_eq_round (Nat.mul_ne_zero hbits.rounded_ne_zero hbits'.rounded_ne_zero), Float.Model.ofNat]

theorem model_ofNat_add (a b : Nat) :
    Float.Model.ofNat a + Float.Model.ofNat b = Float.Model.ofNat (rounded a + rounded b) := by
  show Float.Model.pack (UnpackedFloat.add binary64 (Float.Model.ofNat a).unpack (Float.Model.ofNat b).unpack) = _
  have hua := unpacks_ofNat a
  have hub := unpacks_ofNat b
  generalize (Float.Model.ofNat a).unpack = ua at hua
  generalize (Float.Model.ofNat b).unpack = ub at hub
  cases hua with
  | zero =>
    have hsum : rounded 0 + rounded b = rounded b := by rw [rounded_of_lt (by decide), Nat.zero_add]
    rw [hsum, model_ofNat_rounded]
    cases hub with
    | zero => exact pack_of_unpacks .zero
    | finite hbits hfits => exact pack_of_unpacks (.finite hbits hfits)
    | infinite hlarge => exact pack_of_unpacks (.infinite hlarge)
  | infinite hlarge =>
    have ha := rounded_pos (ne_zero_of_doubleBound_le hlarge)
    have hsum : Unpacks (rounded a + rounded b) (.infinity .positive) :=
      .infinite (doubleBound_le_rounded (by omega) (Nat.le_trans hlarge (Nat.le_add_right _ _)))
    cases hub <;> exact pack_of_unpacks hsum
  | @finite _ v w hbits hfits =>
    cases hub with
    | zero =>
      rw [rounded_of_lt (n := 0) (by decide), Nat.add_zero, model_ofNat_rounded]
      exact pack_of_unpacks (.finite hbits hfits)
    | infinite hlarge =>
      have hb := rounded_pos (ne_zero_of_doubleBound_le hlarge)
      exact pack_of_unpacks (.infinite (doubleBound_le_rounded (by omega) (Nat.le_trans hlarge (Nat.le_add_left _ _))))
    | @finite _ v' w' hbits' =>
      -- both mantissas are moved to the smaller exponent
      have hden := hbits.denotes.lower (min_le_left w w')
      have hden' := hbits'.denotes.lower (min_le_right w w')
      have hpos := Nat.mul_pos hbits.pos (Nat.two_pow_pos (w - min w w').toNat)
      have hsum := hden.add hden'
      rw [Float.Model.ofNat, ofNat_eq_round (hsum.ne_zero (by omega)), ← round_of_denotes hsum (by omega),
        ← normalize_natCast _ (by omega) _ .positive]
      simp only [UnpackedFloat.add, decreaseExponent, Nat.shiftLeft_eq, Sign.apply]
      rw [Int.natCast_add]

/-- Two numbers have the same double only if they are rounded to the same, or both too large. -/
theorem model_ofNat_inj_iff : Float.Model.ofNat a = Float.Model.ofNat b ↔
    rounded a = rounded b ∨ doubleBound ≤ rounded a ∧ doubleBound ≤ rounded b := by
  constructor
  · intro h
    have hua := unpacks_ofNat a
    have hub := unpacks_ofNat b
    rw [← h] at hub
    generalize (Float.Model.ofNat a).unpack = u at hua hub
    cases hua with
    | zero => cases hub with
      | zero => exact .inl rfl
    | infinite hlarge => cases hub with
      | infinite hlarge' => exact .inr ⟨hlarge, hlarge'⟩
    | finite hbits => cases hub with
      | finite hbits' => exact .inl (hbits.denotes.unique hbits'.denotes)
  · rintro (h | ⟨ha, hb⟩)
    · rw [← model_ofNat_rounded a, h, model_ofNat_rounded]
    · rw [← pack_of_unpacks (.infinite ha), ← pack_of_unpacks (.infinite hb)]

end Arithmetic

section Float

variable {a b n : Nat}

/-- A scientific form without a fraction is the model of the number. -/
theorem model_ofScientific_natCast (k g : Nat) : Float.Model.ofScientific k g = Float.Model.ofNat (k * 10 ^ g) := by
  rcases Nat.eq_zero_or_pos k with rfl | hk
  · rw [Nat.zero_mul]
    rfl
  have hne := Nat.pos_iff_ne_zero.1 hk
  have hpos : 0 < 10 ^ g := Nat.pow_pos (by decide)
  have hprod : k * 10 ^ g ≠ 0 := Nat.mul_ne_zero hne (by omega)
  simp only [Float.Model.ofScientific, UnpackedFloat.ofScientific, dif_neg hne]
  by_cases hlarge : (g : Int) > 2 ^ binary64.exponentBits
  · rw [if_pos hlarge]
    have hg : (g : Int) > 2 ^ 11 := hlarge
    have hlog : g ≤ (k * 10 ^ g).log2 := by
      rw [Nat.le_log2 hprod]
      calc 2 ^ g ≤ 10 ^ g := Nat.pow_le_pow_left (by decide) g
        _ ≤ k * 10 ^ g := Nat.le_mul_of_pos_left _ hk
    have hbound : doubleBound ≤ k * 10 ^ g := (doubleBound_le_iff hprod).2 (by omega)
    exact pack_of_unpacks (.infinite (doubleBound_le_rounded hprod hbound))
  · have hlog : 52 ≤ (k * 2 ^ 53 * 10 ^ g).log2 := by
      rw [Nat.le_log2 (by positivity)]
      calc 2 ^ 52 ≤ k * 2 ^ 53 := by omega
        _ ≤ k * 2 ^ 53 * 10 ^ g := Nat.le_mul_of_pos_right _ hpos
    have hden : Denotes (k * 2 ^ 53 * 10 ^ g) (-53 + 0) (k * 10 ^ g) :=
      (denotes_iff (i := 0) (j := 53) (by omega)).2 (by ring)
    rw [if_neg hlarge, if_neg (by omega), if_pos (Int.natCast_nonneg g)]
    simp only [UnpackedFloat.mul, Nat.shiftLeft_eq, Int.toNat_natCast]
    show Float.Model.pack (roundWithAccuracy binary64 .positive (k * 2 ^ 53 * 10 ^ g) (-53 + 0) .exact) = _
    rw [roundWithAccuracy_eq_round _ _ _ hlog, round_of_denotes hden (by positivity), ← ofNat_eq_round hprod,
      Float.Model.ofNat]

theorem toFloat_toUInt64 {n : Nat} (h : n < 2 ^ 53) : n.toUInt64.toFloat = .ofModel (.ofNat n) := by
  show Float.ofModel (.ofNat n.toUInt64.toNat) = _
  rw [Nat.toUInt64_eq, UInt64.toNat_ofNat', Nat.mod_eq_of_lt (by omega)]

theorem ofNat_eq_ofModel (n : Nat) : Float.ofNat n = .ofModel (.ofNat n) := by
  show Float.ofScientific n false 0 = _
  unfold Float.ofScientific
  split
  next h =>
    -- a number of 53 bits is multiplied by one
    have hone : Float.exactlyRepresentablePowersOfTen[0] = .ofModel (.ofNat 1) := by decide
    show n.toUInt64.toFloat * Float.exactlyRepresentablePowersOfTen[0] = _
    rw [hone, toFloat_toUInt64 h.1]
    show Float.ofModel (Float.Model.ofNat n * Float.Model.ofNat 1) = _
    rw [model_ofNat_mul n (by decide) (rounded_lt_doubleBound (by decide)), rounded_of_lt h.1, rounded_of_lt (by decide),
      Nat.mul_one]
  next =>
    have hscientific := model_ofScientific_natCast n 0
    rw [Nat.pow_zero, Nat.mul_one] at hscientific
    exact congrArg Float.ofModel hscientific

theorem ofNat_mul_ofNat (a : Nat) (hb : b ≠ 0) (hfits : rounded b < doubleBound) :
    Float.ofNat a * Float.ofNat b = Float.ofNat (rounded a * rounded b) := by
  simp only [ofNat_eq_ofModel]
  exact congrArg Float.ofModel (model_ofNat_mul a hb hfits)

theorem ofNat_add_ofNat (a b : Nat) : Float.ofNat a + Float.ofNat b = Float.ofNat (rounded a + rounded b) := by
  simp only [ofNat_eq_ofModel]
  exact congrArg Float.ofModel (model_ofNat_add a b)

theorem ofNat_rounded (n : Nat) : Float.ofNat (rounded n) = Float.ofNat n := by
  simp only [ofNat_eq_ofModel, model_ofNat_rounded]

/-- Two numbers have the same double only if they are rounded to the same, or both too large. -/
theorem ofNat_inj_iff : Float.ofNat a = Float.ofNat b ↔
    rounded a = rounded b ∨ doubleBound ≤ rounded a ∧ doubleBound ≤ rounded b := by
  simp only [ofNat_eq_ofModel, Float.ofModel.injEq, model_ofNat_inj_iff]

end Float

end PropertyExpr
