import Mathlib.Algebra.Group.Nat.Defs
/-!
# Rounding a natural number to 53 bits

A double has 53 bits, so from `2 ^ 53` on not every natural number is a double. `rounded n` is the one nearest
to `n` that has 53 bits and zeros behind them, halfway between two of them the one whose 53 bits are even. How
large a double may be is no matter here.

Digits that come behind a number of more than 53 bits are lost if the number is rounded first
(`rounded_rounded_mul_add`). That makes a difference only if the number was halfway between two others, and the
digits would have decided between them: `rounded_mul_two_pow_eq_iff`.
-/
namespace PropertyExpr

/-- The bits of `n` behind the first 53. -/
def spareBits (n : Nat) : Nat := n.log2 - 52

/-- `n / 2 ^ s` as a whole number: the nearest, and halfway between two of them the even one. -/
def roundedQuotient (n s : Nat) : Nat :=
  if 2 * (n % 2 ^ s) < 2 ^ s then n / 2 ^ s
  else if 2 * (n % 2 ^ s) = 2 ^ s then n / 2 ^ s + n / 2 ^ s % 2
  else n / 2 ^ s + 1

/-- The number of at most 53 bits, and zeros behind them, that is nearest to `n`. -/
def rounded (n : Nat) : Nat := roundedQuotient n (spareBits n) * 2 ^ spareBits n

/-- Whether `n` lies halfway between two numbers of 53 bits, and zeros behind them, of which the lower one is
even in its 53 bits. -/
def IsLowTie (n : Nat) : Prop :=
  2 * (n % 2 ^ spareBits n) = 2 ^ spareBits n ∧ n / 2 ^ spareBits n % 2 = 0

instance (n : Nat) : Decidable (IsLowTie n) := inferInstanceAs (Decidable (_ ∧ _))

section Quotient

variable {n m s t i k : Nat}

/-- A multiple is not rounded. -/
theorem roundedQuotient_of_mod_eq_zero (h : n % 2 ^ s = 0) : roundedQuotient n s = n / 2 ^ s := by
  rw [roundedQuotient, if_pos (by rw [h]; exact Nat.two_pow_pos s)]

theorem le_roundedQuotient : n / 2 ^ s ≤ roundedQuotient n s := by
  unfold roundedQuotient
  split
  · exact Nat.le_refl _
  · split <;> omega

theorem roundedQuotient_le : roundedQuotient n s ≤ n / 2 ^ s + 1 := by
  unfold roundedQuotient
  split
  · omega
  · split <;> omega

/-- What stands behind the last bit of the quotient decides only a tie. -/
theorem roundedQuotient_mul_two_pow_add (hs : 0 < s) (ht : t < 2 ^ i) :
    roundedQuotient (m * 2 ^ i + t) (s + i) =
      if t ≠ 0 ∧ 2 * (m % 2 ^ s) = 2 ^ s then m / 2 ^ s + 1 else roundedQuotient m s := by
  obtain ⟨s, rfl⟩ : ∃ s', s = s' + 1 := ⟨s - 1, by omega⟩
  have hpow : 2 ^ (s + 1 + i) = 2 ^ i * 2 ^ (s + 1) := by rw [Nat.pow_add 2 (s + 1), Nat.mul_comm]
  have hquot : (m * 2 ^ i + t) / 2 ^ i = m := by
    rw [Nat.add_comm, Nat.add_mul_div_right _ _ (Nat.two_pow_pos i), Nat.div_eq_of_lt ht, Nat.zero_add]
  have hrem : (m * 2 ^ i + t) % 2 ^ i = t := by
    rw [Nat.add_comm, Nat.add_mul_mod_self_right, Nat.mod_eq_of_lt ht]
  have hdiv : (m * 2 ^ i + t) / 2 ^ (s + 1 + i) = m / 2 ^ (s + 1) := by
    rw [hpow, ← Nat.div_div_eq_div_mul, hquot]
  have hmod : (m * 2 ^ i + t) % 2 ^ (s + 1 + i) = t + 2 ^ i * (m % 2 ^ (s + 1)) := by
    rw [hpow, Nat.mod_mul, hquot, hrem]
  unfold roundedQuotient
  rw [hdiv, hmod, hpow]
  generalize m / 2 ^ (s + 1) = q
  generalize m % 2 ^ (s + 1) = r
  -- one half of the divisor, in units of `2 ^ i`
  have hhalf : 2 ^ i * 2 ^ (s + 1) = 2 * (2 ^ i * 2 ^ s) := by rw [Nat.pow_succ]; ac_rfl
  have hhalf' : 2 ^ (s + 1) = 2 * 2 ^ s := by rw [Nat.pow_succ]; ac_rfl
  rcases Nat.lt_trichotomy r (2 ^ s) with hr | hr | hr
  · have : 2 ^ i * (r + 1) ≤ 2 ^ i * 2 ^ s := Nat.mul_le_mul_left _ hr
    rw [Nat.mul_add] at this
    rw [if_pos (by omega), if_neg (by omega), if_pos (by omega)]
  · subst hr
    by_cases hzero : t = 0
    · rw [if_neg (by omega), if_pos (by omega), if_neg (by omega), if_neg (by omega), if_pos (by omega)]
    · rw [if_neg (by omega), if_neg (by omega), if_pos (by omega)]
  · have : 2 ^ i * (2 ^ s + 1) ≤ 2 ^ i * r := Nat.mul_le_mul_left _ hr
    rw [Nat.mul_add] at this
    have := Nat.two_pow_pos i
    rw [if_neg (by omega), if_neg (by omega), if_neg (by omega), if_neg (by omega), if_neg (by omega)]

/-- Zeros behind a number do not count. -/
theorem roundedQuotient_mul_two_pow (n s k : Nat) :
    roundedQuotient (n * 2 ^ k) (s + k) = roundedQuotient n s := by
  cases s with
  | zero =>
    rw [roundedQuotient_of_mod_eq_zero (by simp), roundedQuotient_of_mod_eq_zero (Nat.mod_one n),
      Nat.zero_add, Nat.mul_div_cancel _ (Nat.two_pow_pos k), Nat.pow_zero, Nat.div_one]
  | succ s => simpa using roundedQuotient_mul_two_pow_add (m := n) (Nat.succ_pos s) (Nat.two_pow_pos k)

end Quotient

section Bits

variable {n m t i k : Nat}

theorem log2_mul_two_pow_add (hm : m ≠ 0) (ht : t < 2 ^ i) : (m * 2 ^ i + t).log2 = m.log2 + i := by
  have hlow := Nat.mul_le_mul_right (2 ^ i) (Nat.log2_self_le hm)
  have hhigh := Nat.mul_le_mul_right (2 ^ i) (Nat.succ_le_of_lt (Nat.lt_log2_self (n := m)))
  rw [← Nat.pow_add] at hlow hhigh
  rw [Nat.succ_mul] at hhigh
  have hne : m * 2 ^ i + t ≠ 0 := by have := Nat.two_pow_pos m.log2; have := Nat.two_pow_pos (m.log2 + i); omega
  rw [Nat.log2_eq_iff hne]
  refine ⟨by omega, ?_⟩
  rw [show m.log2 + i + 1 = m.log2 + 1 + i by omega]
  omega

theorem log2_mul_two_pow (hm : m ≠ 0) : (m * 2 ^ i).log2 = m.log2 + i := by
  simpa using log2_mul_two_pow_add (t := 0) hm (Nat.two_pow_pos i)

theorem spareBits_of_lt (h : n < 2 ^ 53) : spareBits n = 0 := by
  rcases Nat.eq_zero_or_pos n with rfl | hn
  · decide
  · have := (Nat.log2_lt (by omega)).2 h
    unfold spareBits
    omega

theorem log2_of_two_pow_le (h : 2 ^ 53 ≤ n) : n.log2 = 52 + spareBits n ∧ 0 < spareBits n := by
  have := (Nat.le_log2 (by omega)).2 h
  unfold spareBits
  omega

theorem spareBits_mul_two_pow_add (h : 2 ^ 53 ≤ m) (ht : t < 2 ^ i) :
    spareBits (m * 2 ^ i + t) = spareBits m + i := by
  have := log2_of_two_pow_le h
  rw [spareBits, log2_mul_two_pow_add (by omega) ht]
  omega

/-- A number has 53 bits in front of its spare ones. -/
theorem div_two_pow_spareBits (h : 2 ^ 53 ≤ n) :
    2 ^ 52 ≤ n / 2 ^ spareBits n ∧ n / 2 ^ spareBits n < 2 ^ 53 := by
  obtain ⟨hlog, -⟩ := log2_of_two_pow_le h
  constructor
  · rw [Nat.le_div_iff_mul_le (Nat.two_pow_pos _), ← Nat.pow_add, ← hlog]
    exact Nat.log2_self_le (by omega)
  · rw [Nat.div_lt_iff_lt_mul (Nat.two_pow_pos _), ← Nat.pow_add, show 53 + spareBits n = n.log2 + 1 by omega]
    exact Nat.lt_log2_self

end Bits

section Rounded

variable {n m t i k d : Nat}

/-- A number whose spare bits are zeros is a double. -/
theorem rounded_of_mod_eq_zero (h : n % 2 ^ spareBits n = 0) : rounded n = n := by
  rw [rounded, roundedQuotient_of_mod_eq_zero h, Nat.div_mul_cancel (Nat.dvd_of_mod_eq_zero h)]

theorem rounded_of_lt (h : n < 2 ^ 53) : rounded n = n :=
  rounded_of_mod_eq_zero (by rw [spareBits_of_lt h, Nat.pow_zero, Nat.mod_one])

theorem rounded_mul_two_pow (n k : Nat) : rounded (n * 2 ^ k) = rounded n * 2 ^ k := by
  rcases Nat.lt_or_ge n (2 ^ 53) with hn | hn
  · rw [rounded_of_lt hn]
    rcases Nat.eq_zero_or_pos n with rfl | hpos
    · rw [Nat.zero_mul, rounded_of_lt (by decide)]
    · have hlog := (Nat.log2_lt (by omega)).2 hn
      have hs : spareBits (n * 2 ^ k) ≤ k := by rw [spareBits, log2_mul_two_pow (by omega)]; omega
      have hdvd : 2 ^ spareBits (n * 2 ^ k) ∣ n * 2 ^ k := Nat.dvd_mul_left_of_dvd (Nat.pow_dvd_pow 2 hs) n
      exact rounded_of_mod_eq_zero (Nat.mod_eq_zero_of_dvd hdvd)
  · have hs : spareBits (n * 2 ^ k) = spareBits n + k := by
      simpa using spareBits_mul_two_pow_add (t := 0) hn (Nat.two_pow_pos k)
    rw [rounded, hs, roundedQuotient_mul_two_pow, Nat.pow_add, ← Nat.mul_assoc, rounded]

/-- The 53 bits in front of the spare ones, or the next power of two. -/
theorem exists_rounded_eq (h : 2 ^ 53 ≤ n) :
    ∃ v, rounded n = v * 2 ^ spareBits n ∧ 2 ^ 52 ≤ v ∧ v ≤ 2 ^ 53 := by
  obtain ⟨hlow, hhigh⟩ := div_two_pow_spareBits h
  exact ⟨_, rfl, Nat.le_trans hlow le_roundedQuotient, Nat.le_trans roundedQuotient_le hhigh⟩

theorem two_pow_le_rounded (h : 2 ^ k ≤ n) : 2 ^ k ≤ rounded n := by
  rcases Nat.lt_or_ge n (2 ^ 53) with hn | hn
  · rwa [rounded_of_lt hn]
  · obtain ⟨v, hv, hlow, -⟩ := exists_rounded_eq hn
    have hk : k ≤ n.log2 := (Nat.le_log2 (by omega)).2 h
    calc 2 ^ k ≤ 2 ^ (52 + spareBits n) := Nat.pow_le_pow_right (by decide) (by have := log2_of_two_pow_le hn; omega)
      _ = 2 ^ 52 * 2 ^ spareBits n := Nat.pow_add 2 52 _
      _ ≤ rounded n := by rw [hv]; exact Nat.mul_le_mul_right _ hlow

theorem rounded_pos (hn : n ≠ 0) : 0 < rounded n := two_pow_le_rounded (k := 0) (Nat.pos_iff_ne_zero.2 hn)

theorem log2_le_log2_rounded (hn : n ≠ 0) : n.log2 ≤ (rounded n).log2 :=
  (Nat.le_log2 (Nat.pos_iff_ne_zero.1 (rounded_pos hn))).2 (two_pow_le_rounded (Nat.log2_self_le hn))

/-- The spare bits of a rounded number are zeros. -/
theorem rounded_mod_two_pow (n : Nat) : rounded n % 2 ^ spareBits (rounded n) = 0 := by
  rcases Nat.lt_or_ge n (2 ^ 53) with hn | hn
  · rw [rounded_of_lt hn, spareBits_of_lt hn, Nat.pow_zero, Nat.mod_one]
  · obtain ⟨v, hv, hlow, hhigh⟩ := exists_rounded_eq hn
    rw [hv]
    generalize spareBits n = s
    rw [spareBits, log2_mul_two_pow (by omega)]
    rcases Nat.lt_or_eq_of_le hhigh with hlt | rfl
    · have hlog : v.log2 = 52 := (Nat.log2_eq_iff (by omega)).2 ⟨hlow, hlt⟩
      rw [hlog, Nat.add_sub_cancel_left]
      exact Nat.mul_mod_left _ _
    · -- the carry adds a bit
      rw [Nat.log2_two_pow, show 53 + s - 52 = s + 1 by omega,
        show 2 ^ 53 * 2 ^ s = 2 ^ 52 * 2 ^ (s + 1) by rw [Nat.pow_succ]; omega]
      exact Nat.mul_mod_left _ _

@[simp]
theorem rounded_rounded (n : Nat) : rounded (rounded n) = rounded n :=
  rounded_of_mod_eq_zero (rounded_mod_two_pow n)

/-- Digits behind a number that has spare bits are lost when the number is rounded. -/
theorem rounded_rounded_mul_add (hn : 2 ^ 53 ≤ n) (hd : d < 2 ^ k) :
    rounded (rounded n * 2 ^ k + d) = rounded n * 2 ^ k := by
  have hm := two_pow_le_rounded hn
  obtain ⟨-, hs⟩ := log2_of_two_pow_le hm
  have hzero := rounded_mod_two_pow n
  have hdouble := rounded_rounded n
  generalize rounded n = m at hm hs hzero hdouble
  rw [rounded, spareBits_mul_two_pow_add hm hd, roundedQuotient_mul_two_pow_add hs hd,
    if_neg (by have := Nat.two_pow_pos (spareBits m); omega), Nat.pow_add, ← Nat.mul_assoc]
  exact congrArg (· * 2 ^ k) hdouble

/-- Whether the digits behind a number of more than 53 bits matter: if they decide a tie that goes down. -/
theorem rounded_mul_two_pow_eq_iff (hm : 2 ^ 53 ≤ m) (ht : t < 2 ^ i) :
    rounded (m * 2 ^ i) = rounded (m * 2 ^ i + t) ↔ ¬ (t ≠ 0 ∧ IsLowTie m) := by
  obtain ⟨-, hs⟩ := log2_of_two_pow_le hm
  have hcancel {a b : Nat} : a * 2 ^ (spareBits m + i) = b * 2 ^ (spareBits m + i) ↔ a = b :=
    Nat.mul_left_inj (Nat.pos_iff_ne_zero.1 (Nat.two_pow_pos _))
  have hspare : spareBits (m * 2 ^ i) = spareBits m + i := by
    simpa using spareBits_mul_two_pow_add (t := 0) hm (Nat.two_pow_pos i)
  rw [rounded, rounded, spareBits_mul_two_pow_add hm ht, hspare, hcancel, roundedQuotient_mul_two_pow,
    roundedQuotient_mul_two_pow_add hs ht]
  by_cases htie : 2 * (m % 2 ^ spareBits m) = 2 ^ spareBits m
  · -- a tie goes to the even quotient
    rw [roundedQuotient, if_neg (by omega), if_pos htie, IsLowTie]
    by_cases hzero : t = 0
    · simp [hzero]
    · rw [if_pos ⟨hzero, htie⟩]
      omega
  · rw [if_neg fun h => htie h.2]
    simp [IsLowTie, htie]

/-- A tie goes down to the even number. -/
theorem rounded_le_of_isLowTie (h : IsLowTie n) : rounded n ≤ n := by
  obtain ⟨htie, heven⟩ := h
  rw [rounded, roundedQuotient, if_neg (by omega), if_pos htie, heven, Nat.add_zero]
  exact Nat.div_mul_le_self n _

end Rounded

end PropertyExpr
