import PropertyExpr.Proofs.Digits
import PropertyExpr.Proofs.IntegerDoubles
import PropertyExpr.Value.Rendered
/-!
# How doubles that are integers are written

A double that stands for an integer up to `2 ^ 53` in magnitude has the digits of the integer as its text, and is that
integer in JSON if it is below the bound. The text need not be the decimal that is found first: zeros are put behind
the shortest digits until all places are filled, and there are never more than sixteen.
-/
namespace PropertyExpr

open Float.Model Float.Model.UnpackedFloat
open Float.Model.Format (binary64)

/-- Multiplying by a power of ten puts zeros behind the digits. -/
theorem toDigits_mul_ten_pow {k : Nat} (hk : 0 < k) (g : Nat) :
    Nat.toDigits 10 (k * 10 ^ g) = Nat.toDigits 10 k ++ List.replicate g '0' := by
  induction g with
  | zero => rw [Nat.pow_zero, Nat.mul_one, List.replicate_zero, List.append_nil]
  | succ g ih =>
    have hpos : 0 < k * 10 ^ g := Nat.mul_pos hk (Nat.pow_pos (by decide))
    rw [Nat.pow_succ, ← Nat.mul_assoc, Nat.toDigits_of_base_le (by decide) (by omega),
      Nat.mul_div_cancel _ (by decide), Nat.mul_mod_left, ih, List.replicate_succ', List.append_assoc]
    rfl

/-- A multiple of ten is rounded to a number up to `2 ^ 53` only if it is that number. -/
theorem eq_of_rounded_eq {a n : Nat} (h : rounded a = n) (hle : n ≤ 2 ^ 53) (hten : 10 ∣ a) : a = n := by
  rcases Nat.lt_or_ge a (2 ^ 53) with hlt | hge
  · rwa [rounded_of_lt hlt] at h
  · -- there are two numbers that are rounded to the bound, and neither is a multiple of ten
    have hlow := two_pow_le_rounded hge
    have hhigh : a < 2 ^ 54 := by
      by_contra hlarge
      have := two_pow_le_rounded (Nat.not_lt.1 hlarge)
      omega
    have hspare : spareBits a = 1 := by
      have hlog := (Nat.log2_lt (by omega)).2 hhigh
      have := log2_of_two_pow_le hge
      omega
    have hquot := le_roundedQuotient (n := a) (s := 1)
    rw [rounded, hspare] at h
    omega

namespace Magnitude

variable {m : Magnitude} {n : Nat}

/-- A decimal that reads back without a fraction is rounded to the number. -/
theorem rounded_eq_of_ofFloat? {k g : Nat} (hden : Denotes m.mantissa m.exponent n)
    (h : ofFloat? (Decimal.toFloat ⟨k, g⟩) = some m) : rounded (k * 10 ^ g) = n := by
  obtain ⟨mantissa, exponent⟩ := m
  obtain ⟨s, hpos, hunpack⟩ := ofFloat?_eq_some_iff.1 h
  rw [toFloat_natCast, ofNat_eq_ofModel] at hunpack
  have hunpacks : Unpacks (k * 10 ^ g) (.finite s mantissa exponent hpos) := hunpack ▸ unpacks_ofNat (k * 10 ^ g)
  generalize k * 10 ^ g = a at hunpacks ⊢
  cases hunpacks with
  | finite hbits => exact hbits.denotes.unique hden

theorem exponent_of_onGrid? {reads : Decimal → Bool} {tie : Tie} {grid : Int} {d : Decimal}
    (h : m.onGrid? reads tie grid = some d) : d.exponent = grid := by
  rw [onGrid?] at h
  simp only at h
  split at h
  · cases h
    split <;> rfl
  · cases h
    rfl
  · cases h
    rfl
  · cases h

/-- The number itself reads back on the grid of whole numbers, and is nearest there. -/
theorem onGrid?_zero (h : Representable m.mantissa m.exponent) (hden : Denotes m.mantissa m.exponent n) (tie : Tie) :
    m.onGrid? (fun d => decide (ofFloat? d.toFloat = some m)) tie 0 = some ⟨n, (0 : Nat)⟩ := by
  have hnumerator : m.numerator = n * m.denominator := hden
  have hsteps : m.steps 0 = (n * m.denominator, m.denominator) := by
    show (m.numerator * 1, m.denominator * 1) = _
    rw [Nat.mul_one, Nat.mul_one, hnumerator]
  have hpos : 0 < m.denominator := Nat.pow_pos (by decide)
  have hreads : ofFloat? (Decimal.toFloat ⟨n, 0⟩) = some m :=
    ofFloat?_eq_some_iff.2 ⟨.positive, h.pos, h.unpack_ofNat hden⟩
  have hnearer : tie.takesUpper n 0 m.denominator = false := by
    rw [Tie.takesUpper, Nat.mul_zero, Nat.compare_eq_lt.2 hpos]
  rw [onGrid?, hsteps]
  simp only [Nat.mul_div_cancel n hpos, Nat.mul_mod_left, hreads, hnearer, decide_true]
  cases decide (ofFloat? (Decimal.toFloat ⟨n + 1, 0⟩) = some m) <;> rfl

/-- **The shortest decimal of a whole number is that number**, with zeros behind its digits. -/
theorem exists_shortest_eq (h : Representable m.mantissa m.exponent) (hden : Denotes m.mantissa m.exponent n)
    (hle : n ≤ 2 ^ 53) (tie : Tie) : ∃ k g : Nat, m.shortest tie = ⟨k, g⟩ ∧ k * 10 ^ g = n := by
  have hsearch (j : Nat) (hj : 0 ≤ m.finestGrid + j) : ∃ k g : Nat,
      m.search (fun d => decide (ofFloat? d.toFloat = some m)) tie m.finestGrid j = ⟨k, g⟩ ∧ k * 10 ^ g = n := by
    induction j with
    | zero =>
      have hexp : 0 ≤ m.exponent := by
        unfold finestGrid at hj
        omega
      obtain ⟨mantissa, exponent⟩ := m
      obtain ⟨e, rfl⟩ := Int.eq_ofNat_of_zero_le hexp
      refine ⟨mantissa * 2 ^ e, 0, written_natCast mantissa e, ?_⟩
      rw [Nat.pow_zero, Nat.mul_one]
      simpa [Denotes] using hden
    | succ j ih =>
      rw [search]
      rcases Int.lt_or_eq_of_le hj with hpos | hzero
      · cases hfound : m.onGrid? (fun d => decide (ofFloat? d.toFloat = some m)) tie (m.finestGrid + (j + 1 : Nat)) with
        | none => exact ih (by omega)
        | some d =>
          have hexp := exponent_of_onGrid? hfound
          have hreads := of_decide_eq_true (reads_of_onGrid? hfound)
          obtain ⟨k, exponent⟩ := d
          obtain ⟨g, rfl⟩ := Int.eq_ofNat_of_zero_le (show 0 ≤ exponent by simp only at hexp; omega)
          refine ⟨k, g, rfl, eq_of_rounded_eq (rounded_eq_of_ofFloat? hden hreads) hle ?_⟩
          simp only at hexp
          exact Nat.dvd_mul_left_of_dvd (dvd_pow_self 10 (by omega)) k
      · rw [← hzero, onGrid?_zero h hden]
        exact ⟨n, 0, rfl, by rw [Nat.pow_zero, Nat.mul_one]⟩
  exact hsearch _ (by omega)

/-- It is written with the digits of the number, up to the sixteen that `2 ^ 53` has. -/
theorem write_eq_toDigits (h : Representable m.mantissa m.exponent) (hden : Denotes m.mantissa m.exponent n)
    (hle : n ≤ 2 ^ 53) : Layout.text.write m = Nat.toDigits 10 n := by
  obtain ⟨k, g, hshortest, hn⟩ := exists_shortest_eq h hden hle Layout.text.tie
  have hk : 0 < k := by
    refine Nat.pos_iff_ne_zero.2 ?_
    rintro rfl
    rw [Nat.zero_mul] at hn
    exact hden.ne_zero (Nat.pos_iff_ne_zero.1 h.pos) hn.symm
  have hdigits := toDigits_mul_ten_pow hk g
  rw [hn] at hdigits
  have hlength : (Nat.toDigits 10 n).length ≤ 16 := (Nat.length_toDigits_le_iff (by decide) (by decide)).2 (by omega)
  have hpos : 0 < (Nat.toDigits 10 k).length := Nat.length_toDigits_pos
  rw [hdigits, List.length_append, List.length_replicate] at hlength
  have hplaces : Layout.text.least ≤ (g : Int) + (Nat.toDigits 10 k).length - 1 ∧
      (g : Int) + (Nat.toDigits 10 k).length - 1 ≤ Layout.text.greatest := by
    show (-6 : Int) ≤ _ ∧ _ ≤ (20 : Int)
    omega
  rw [Layout.write, hshortest, Layout.writeDecimal, if_pos hplaces, Layout.positional, if_pos (Int.natCast_nonneg g),
    Int.toNat_natCast, if_neg (by decide), List.append_nil, hdigits]

end Magnitude

namespace StandsFor

variable {x : Float} {v : Int}

/-- **The text of a double that stands for an integer is that of the integer**, whichever zero it is. -/
theorem text_eq (h : StandsFor x v) (hle : v.natAbs ≤ 2 ^ 53) : (Rendered.number x).text = toString v := by
  have hlist : Number.text x = (toString v).toList := by
    rw [Number.text, toList_toString]
    unfold StandsFor at h
    generalize x.toModel.unpack = u at h
    cases h with
    | zero s => rfl
    | @finite s n m w hrep hfull hden =>
      rw [natAbs_apply, Int.natAbs_natCast] at hle ⊢
      have hwrite := Magnitude.write_eq_toDigits (m := ⟨m, w⟩) hrep hden hle
      have hn := hden.ne_zero (Nat.pos_iff_ne_zero.1 hrep.pos)
      cases s with
      | positive =>
        rw [if_neg (by simp only [Sign.apply]; omega)]
        exact hwrite
      | negative =>
        rw [if_pos (by simp only [Sign.apply]; omega)]
        exact congrArg ('-' :: ·) hwrite
  rw [Rendered.text, hlist, String.ofList_toList]

/-- Below `2 ^ 53` it is the integer in JSON. -/
theorem toJson_eq (h : StandsFor x v) (hlt : v.natAbs < 2 ^ 53) : (Rendered.number x).toJson = .int v := by
  have hsafe : Rendered.safeInteger? x = some v := by
    rw [Rendered.safeInteger?]
    unfold StandsFor at h
    generalize x.toModel.unpack = u at h
    cases h with
    | zero s => rfl
    | @finite s n m w hrep hfull hden =>
      rw [natAbs_apply, Int.natAbs_natCast] at hlt
      have hnumerator : Magnitude.numerator ⟨m, w⟩ = n * Magnitude.denominator ⟨m, w⟩ := hden
      have hpos : 0 < Magnitude.denominator ⟨m, w⟩ := Nat.pow_pos (by decide)
      have hfloor : Magnitude.floor ⟨m, w⟩ = n := by rw [Magnitude.floor, hnumerator, Nat.mul_div_cancel n hpos]
      have hintegral : Magnitude.isIntegral ⟨m, w⟩ := by
        rw [Magnitude.isIntegral, hnumerator, Nat.mul_mod_left]
        rfl
      have hbound : n < Rendered.safeBound := hlt
      simp only [hintegral, hfloor, hbound, decide_true, Bool.and_self, if_true]
      cases s <;> rfl
  simp only [Rendered.toJson, hsafe]

end StandsFor

end PropertyExpr
