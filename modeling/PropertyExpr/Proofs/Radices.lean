import PropertyExpr.Number.Coercion
import PropertyExpr.Proofs.Doubles
import PropertyExpr.Proofs.Lexing
import PropertyExpr.Proofs.Numerals
/-!
# Integers in different radices

An integer written in decimal is read as the double nearest to it. One behind a radix prefix is built digit by
digit, and is rounded at each of them; as soon as the digits so far have more than 53 bits, those that follow are
lost. So it is the double nearest to a number that has zeros in their place (`Radix.kept`), and differs from the
decimal one just when the lost digits would have decided a tie: `ofText_spelled`.
-/
namespace PropertyExpr.Number

/-- A radix that a prefix announces. -/
inductive Radix
  | binary
  | octal
  | hexadecimal
deriving DecidableEq, Repr

namespace Radix

/-- The bits of a digit. -/
def bits : Radix → Nat
  | binary => 1
  | octal => 3
  | hexadecimal => 4

/-- How many digits there are. -/
def size (r : Radix) : Nat := 2 ^ r.bits

/-- The letters that stand for the radix in a prefix. -/
def letters : Radix → List Char
  | binary => ['b', 'B']
  | octal => ['o', 'O']
  | hexadecimal => ['x', 'X']

/-- The last digits of `n`: those that come when the digits before them have more than 53 bits. -/
def lost (r : Radix) (n : Nat) : Nat := (n.log2 - 53) / r.bits

/-- `n` with zeros for the digits that come too late. -/
def kept (r : Radix) (n : Nat) : Nat := n / r.size ^ r.lost n * r.size ^ r.lost n

end Radix

/-- `n`, continued by digits. -/
def continued (radix n : Nat) (ds : List Nat) : Nat := ds.foldl (fun n d => n * radix + d) n

/-- `n`, continued by digits and rounded before each of them. -/
def continuedRounded (radix n : Nat) (ds : List Nat) : Nat := ds.foldl (fun n d => rounded n * radix + d) n

/-- `text` is the number `n` behind the prefix of a radix: digits of it in either case, with or without zeros in
front. -/
def Radix.Spells (r : Radix) (text : String) (n : Nat) : Prop :=
  ∃ letter ∈ r.letters, ∃ cs ds, text.toList = '0' :: letter :: cs ∧ cs ≠ [] ∧
    cs.mapM (digit? r.size) = some ds ∧ continued r.size 0 ds = n

/-- `text` is the number `n` in decimal digits, with or without zeros in front. -/
def SpellsDecimal (text : String) (n : Nat) : Prop :=
  text.toList ≠ [] ∧ text.toList.all Char.isDigit ∧ digitsValue text.toList = n

section Digits

variable {radix d n : Nat} {c : Char}

theorem lt_of_digit? (h : digit? radix c = some d) : d < radix := by
  have := (Option.filter_eq_some_iff.1 h).2
  simpa using this

/-- Digits in any radix are letters or decimal digits. -/
theorem isAlphanum_of_digit? (h : digit? radix c = some d) : c.isAlphanum := by
  have hvalue := (Option.filter_eq_some_iff.1 h).1
  simp only [Char.isAlphanum, Char.isAlpha]
  split at hvalue
  · simp [*]
  · split at hvalue
    · simp [*]
    · split at hvalue
      · simp [*]
      · cases hvalue

end Digits

namespace Radix

variable {n : Nat}

theorem bits_pos (r : Radix) : 0 < r.bits := by cases r <;> decide

theorem size_pos (r : Radix) : 0 < r.size := Nat.two_pow_pos r.bits

theorem size_pow (r : Radix) (k : Nat) : r.size ^ k = 2 ^ (r.bits * k) := (Nat.pow_mul 2 r.bits k).symm

theorem lost_of_lt (r : Radix) (h : n < 2 ^ 53) : r.lost n = 0 := by
  rw [lost, Nat.sub_eq_zero_of_le, Nat.zero_div]
  rcases Nat.eq_zero_or_pos n with rfl | hn
  · decide
  · exact Nat.le_of_lt ((Nat.log2_lt (Nat.pos_iff_ne_zero.1 hn)).2 h)

theorem kept_of_lt (r : Radix) (h : n < 2 ^ 53) : r.kept n = n := by
  rw [kept, r.lost_of_lt h, Nat.pow_zero, Nat.div_one, Nat.mul_one]

/-- The digits that are not lost are those up to the one that makes more than 53 bits. -/
theorem kept_mul_add (r : Radix) {p k t : Nat} (hlow : 2 ^ 53 ≤ p) (hhigh : p < 2 ^ 53 * r.size)
    (ht : t < r.size ^ k) : r.kept (p * r.size ^ k + t) = p * r.size ^ k := by
  have hlog : p.log2 < 53 + r.bits := by
    rw [Nat.log2_lt (by omega), Nat.pow_add]
    exact hhigh
  have hlog' : 53 ≤ p.log2 := (Nat.le_log2 (by omega)).2 hlow
  have hlost : r.lost (p * r.size ^ k + t) = k := by
    rw [lost, r.size_pow, log2_mul_two_pow_add (by omega) (by rwa [← r.size_pow]),
      show p.log2 + r.bits * k - 53 = p.log2 - 53 + r.bits * k by omega,
      Nat.add_mul_div_left _ _ r.bits_pos, Nat.div_eq_of_lt (by omega), Nat.zero_add]
  have hpos : 0 < r.size ^ k := by rw [r.size_pow]; exact Nat.two_pow_pos _
  rw [kept, hlost, Nat.add_comm, Nat.add_mul_div_right _ _ hpos, Nat.div_eq_of_lt ht, Nat.zero_add]

end Radix

section Continued

variable {r : Radix} {p d : Nat} {ds : List Nat}

theorem continued_cons : continued r.size p (d :: ds) = continued r.size (p * r.size + d) ds := rfl

theorem continuedRounded_cons :
    continuedRounded r.size p (d :: ds) = continuedRounded r.size (rounded p * r.size + d) ds := rfl

/-- Digits behind `p` move it to the left and add less than one of its units. -/
theorem exists_continued_eq (hds : ∀ d ∈ ds, d < r.size) :
    ∃ t < r.size ^ ds.length, continued r.size p ds = p * r.size ^ ds.length + t := by
  induction ds generalizing p with
  | nil => exact ⟨0, by simp, by simp [continued]⟩
  | cons d ds ih =>
    have hd := hds d List.mem_cons_self
    obtain ⟨t, ht, heq⟩ := ih (p := p * r.size + d) fun d hd => hds d (List.mem_cons_of_mem _ hd)
    refine ⟨d * r.size ^ ds.length + t, ?_, ?_⟩
    · rw [List.length_cons, Nat.pow_succ, Nat.mul_comm (r.size ^ ds.length)]
      calc d * r.size ^ ds.length + t < (d + 1) * r.size ^ ds.length := by rw [Nat.succ_mul]; omega
        _ ≤ r.size * r.size ^ ds.length := Nat.mul_le_mul_right _ hd
    · rw [continued_cons, heq, List.length_cons, Nat.pow_succ, Nat.add_mul]
      ac_rfl

/-- Once there are more than 53 bits, all digits that follow are lost. -/
theorem rounded_continuedRounded_of_le (hp : 2 ^ 53 ≤ p) (hds : ∀ d ∈ ds, d < r.size) :
    rounded (continuedRounded r.size p ds) = rounded (p * r.size ^ ds.length) := by
  induction ds generalizing p with
  | nil => simp [continuedRounded]
  | cons d ds ih =>
    have hstep : rounded (rounded p * r.size + d) = rounded p * r.size :=
      rounded_rounded_mul_add hp (hds d List.mem_cons_self)
    have hlarge : 2 ^ 53 ≤ rounded p * r.size + d := by
      calc 2 ^ 53 ≤ rounded p := two_pow_le_rounded hp
        _ ≤ rounded p * r.size := Nat.le_mul_of_pos_right _ r.size_pos
        _ ≤ rounded p * r.size + d := Nat.le_add_right _ _
    calc rounded (continuedRounded r.size p (d :: ds))
        = rounded ((rounded p * r.size + d) * r.size ^ ds.length) :=
          ih hlarge fun d hd => hds d (List.mem_cons_of_mem _ hd)
      _ = rounded p * r.size * r.size ^ ds.length := by rw [r.size_pow, rounded_mul_two_pow, hstep]
      _ = rounded (p * r.size ^ (d :: ds).length) := by
          rw [r.size_pow (d :: ds).length, rounded_mul_two_pow, ← r.size_pow, List.length_cons, Nat.pow_succ]
          ac_rfl

/-- Up to there nothing is rounded. -/
theorem rounded_continuedRounded (hp : p < 2 ^ 53) (hds : ∀ d ∈ ds, d < r.size) :
    rounded (continuedRounded r.size p ds) = rounded (r.kept (continued r.size p ds)) := by
  induction ds generalizing p with
  | nil => simp [continuedRounded, continued, r.kept_of_lt hp]
  | cons d ds ih =>
    have hd := hds d List.mem_cons_self
    have htail : ∀ d ∈ ds, d < r.size := fun d hd => hds d (List.mem_cons_of_mem _ hd)
    rw [continuedRounded_cons, continued_cons, rounded_of_lt hp]
    rcases Nat.lt_or_ge (p * r.size + d) (2 ^ 53) with hlt | hge
    · exact ih hlt htail
    · have hhigh : p * r.size + d < 2 ^ 53 * r.size := by
        calc p * r.size + d < (p + 1) * r.size := by rw [Nat.succ_mul]; omega
          _ ≤ 2 ^ 53 * r.size := Nat.mul_le_mul_right _ hp
      obtain ⟨t, ht, heq⟩ := exists_continued_eq (p := p * r.size + d) htail
      rw [rounded_continuedRounded_of_le hge htail, heq, r.kept_mul_add hge hhigh ht]

/-- Digits of a radix, one by one. -/
theorem mapM_digit?_cons_eq_some {radix : Nat} {c : Char} {cs : List Char}
    (h : (c :: cs).mapM (digit? radix) = some ds) :
    ∃ d ds', ds = d :: ds' ∧ digit? radix c = some d ∧ cs.mapM (digit? radix) = some ds' := by
  rw [List.mapM_cons] at h
  obtain ⟨d, hd, h⟩ := Option.bind_eq_some_iff.1 h
  obtain ⟨ds', hds', h⟩ := Option.bind_eq_some_iff.1 h
  exact ⟨d, ds', (Option.some.inj h).symm, hd, hds'⟩

theorem lt_of_mapM_digit? {radix : Nat} {cs : List Char} (h : cs.mapM (digit? radix) = some ds) :
    ∀ d ∈ ds, d < radix := by
  induction cs generalizing ds with
  | nil =>
    obtain rfl : [] = ds := Option.some.inj h
    simp
  | cons c cs ih =>
    obtain ⟨d, ds, rfl, hd, hds⟩ := mapM_digit?_cons_eq_some h
    exact List.forall_mem_cons.2 ⟨lt_of_digit? hd, ih hds⟩

theorem isAlphanum_of_mapM_digit? {radix : Nat} {cs : List Char} (h : cs.mapM (digit? radix) = some ds) :
    ∀ c ∈ cs, c.isAlphanum := by
  induction cs generalizing ds with
  | nil => simp
  | cons c cs ih =>
    obtain ⟨d, ds, rfl, hd, hds⟩ := mapM_digit?_cons_eq_some h
    exact List.forall_mem_cons.2 ⟨isAlphanum_of_digit? hd, ih hds⟩

/-- Digits in double arithmetic. -/
theorem appendDigits_ofNat {cs : List Char} (h : cs.mapM (digit? r.size) = some ds) (a : Nat) :
    appendDigits r.size (Float.ofNat a) cs = Float.ofNat (continuedRounded r.size a ds) := by
  induction cs generalizing a ds with
  | nil =>
    obtain rfl : [] = ds := Option.some.inj h
    rfl
  | cons c cs ih =>
    obtain ⟨d, ds, rfl, hd, hds⟩ := mapM_digit?_cons_eq_some h
    have hsize : r.size < 2 ^ 53 := by cases r <;> decide
    have hstep : Float.ofNat a * Float.ofNat r.size + Float.ofNat d = Float.ofNat (rounded a * r.size + d) := by
      rw [ofNat_mul_ofNat a (Nat.pos_iff_ne_zero.1 r.size_pos) (rounded_lt_doubleBound hsize),
        rounded_of_lt hsize, ofNat_add_ofNat, Radix.size, rounded_mul_two_pow, rounded_rounded,
        rounded_of_lt (Nat.lt_trans (lt_of_digit? hd) hsize)]
    rw [appendDigits, hd, continuedRounded_cons]
    simp only [hstep]
    exact ih hds _

end Continued

section Text

variable {r : Radix} {text : String} {n : Nat} {cs : List Char}

/-- A decimal integer is read as the double nearest to it. -/
theorem ofText_of_spellsDecimal (h : SpellsDecimal text n) : ofText text = Float.ofNat n := by
  obtain ⟨hne, hdigits, rfl⟩ := h
  have hread := (ofText_digits hne (List.all_eq_true.1 hdigits)).1
  rwa [String.ofList_toList] at hread

/-- An integer behind a prefix is read as the double nearest to what is kept of it. -/
theorem ofText_of_spells (h : r.Spells text n) : ofText text = Float.ofNat (r.kept n) := by
  obtain ⟨letter, hletter, cs, ds, htext, hne, hds, rfl⟩ := h
  have hprefix : radixPrefix? ('0' :: letter :: cs) = some (r.size, cs) := by
    cases r <;> simp [Radix.letters] at hletter <;> rcases hletter with rfl | rfl <;> rfl
  have halnum : ∀ c ∈ '0' :: letter :: cs, c.isAlphanum := by
    have hl : letter.isAlphanum := by
      cases r <;> simp [Radix.letters] at hletter <;> rcases hletter with rfl | rfl <;> rfl
    simpa [hl] using isAlphanum_of_mapM_digit? hds
  have hdigits : ofRadix r.size cs = Float.ofNat (continuedRounded r.size 0 ds) := by
    rw [ofRadix, if_neg (by simpa using hne)]
    exact appendDigits_ofNat hds 0
  have htrim : Text.trim ('0' :: letter :: cs) = '0' :: letter :: cs :=
    Text.trim_eq_self fun c hc => isBlank_of_isIdentifierPart (by simp [isIdentifierPart, halnum c hc])
  rw [ofText, htext, htrim, ofTrimmed, if_neg (by simp), if_neg (by simp), if_neg (by simp), hprefix]
  simp only [hdigits]
  rw [← ofNat_rounded, rounded_continuedRounded (by decide) (lt_of_mapM_digit? hds), ofNat_rounded]

end Text

section Agreement

variable {r : Radix} {n : Nat}

/-- The double of a number is that of what is kept of it, unless what is lost would have decided a tie. -/
theorem ofNat_kept_eq_iff : Float.ofNat (r.kept n) = Float.ofNat n ↔
    ¬ (n < doubleBound ∧ n % r.size ^ r.lost n ≠ 0 ∧ IsLowTie (n / r.size ^ r.lost n)) := by
  rcases Nat.lt_or_ge n (2 ^ 53) with hlt | hge
  · simp [r.kept_of_lt hlt, r.lost_of_lt hlt, Nat.mod_one]
  · rw [ofNat_inj_iff, Radix.kept, r.size_pow]
    have hlog : 53 ≤ n.log2 := (Nat.le_log2 (by omega)).2 hge
    have hlost : 53 + r.bits * r.lost n ≤ n.log2 := by
      have := Nat.mul_div_le (n.log2 - 53) r.bits
      unfold Radix.lost
      omega
    generalize r.bits * r.lost n = i at hlost
    have ht : n % 2 ^ i < 2 ^ i := Nat.mod_lt n (Nat.two_pow_pos i)
    have hm : 2 ^ 53 ≤ n / 2 ^ i := by
      rw [Nat.le_div_iff_mul_le (Nat.two_pow_pos i), ← Nat.pow_add]
      exact Nat.le_trans (Nat.pow_le_pow_right (by decide) hlost) (Nat.log2_self_le (by omega))
    have hn : n / 2 ^ i * 2 ^ i + n % 2 ^ i = n := Nat.div_add_mod' n (2 ^ i)
    have hkept := rounded_mul_two_pow_eq_iff hm ht
    have hlog' := log2_mul_two_pow_add (m := n / 2 ^ i) (by omega) ht
    rw [hn] at hkept hlog'
    rw [hkept]
    constructor
    · rintro (h | ⟨hlarge, -⟩) ⟨hsmall, hrest, htie⟩
      · exact h ⟨hrest, htie⟩
      · -- a tie goes down, and `n` itself is not too large
        have hle : rounded (n / 2 ^ i * 2 ^ i) ≤ n := by
          rw [rounded_mul_two_pow]
          exact Nat.le_trans (Nat.mul_le_mul_right _ (rounded_le_of_isLowTie htie)) (Nat.div_mul_le_self n _)
        omega
    · intro h
      rcases Nat.lt_or_ge n doubleBound with hsmall | hlarge
      · exact .inl fun hrest => h ⟨hsmall, hrest⟩
      · have hne : n / 2 ^ i * 2 ^ i ≠ 0 := Nat.mul_ne_zero (by omega) (Nat.pos_iff_ne_zero.1 (Nat.two_pow_pos i))
        refine .inr ⟨doubleBound_le_rounded hne ?_, doubleBound_le_rounded (by omega) hlarge⟩
        rw [ge_iff_le, doubleBound_le_iff (by omega)] at hlarge
        rw [doubleBound_le_iff hne, log2_mul_two_pow (by omega)]
        omega

end Agreement

/-- An integer written in decimal is read as the double nearest to it; behind a radix prefix, as the double
nearest to what is kept of it. The two are the same unless the lost digits would have decided a tie that goes
down, and the number is not too large for a double. -/
theorem ofText_spelled {r : Radix} {text decimal : String} {n : Nat} (htext : r.Spells text n)
    (hdecimal : SpellsDecimal decimal n) :
    ofText decimal = Float.ofNat n ∧ ofText text = Float.ofNat (r.kept n) ∧
      (ofText text = ofText decimal ↔
        ¬ (n < doubleBound ∧ n % r.size ^ r.lost n ≠ 0 ∧ IsLowTie (n / r.size ^ r.lost n))) := by
  rw [ofText_of_spellsDecimal hdecimal, ofText_of_spells htext]
  exact ⟨rfl, rfl, ofNat_kept_eq_iff⟩

/-- The last digit is lost, and would have changed nothing. -/
theorem ofText_spelled_longHexadecimal :
    Radix.hexadecimal.Spells "0x400000000000001" (2 ^ 58 + 1) ∧ SpellsDecimal "288230376151711745" (2 ^ 58 + 1) ∧
      ofText "0x400000000000001" = ofText "288230376151711745" := by
  have htext : Radix.hexadecimal.Spells "0x400000000000001" (2 ^ 58 + 1) :=
    ⟨'x', by decide, "400000000000001".toList, [4, 0, 0, 0, 0, 0, 0, 0, 0, 0, 0, 0, 0, 0, 1], by decide, by decide,
      by decide, by decide⟩
  have hdecimal : SpellsDecimal "288230376151711745" (2 ^ 58 + 1) := ⟨by decide, by decide, by decide⟩
  exact ⟨htext, hdecimal, (ofText_spelled htext hdecimal).2.2.2 fun h => absurd h.2.2 (by decide)⟩

/-- The last digit is lost, and would have decided a tie. -/
theorem ofText_not_spelled_alike : ¬ ∀ (r : Radix) (text decimal : String) (n : Nat), r.Spells text n →
    SpellsDecimal decimal n → ofText text = ofText decimal := by
  intro h
  have htext : Radix.binary.Spells "0b1000000000000000000000000000000000000000000000000000011" (2 ^ 54 + 3) :=
    ⟨'b', by decide, "1000000000000000000000000000000000000000000000000000011".toList,
      1 :: List.replicate 52 0 ++ [1, 1], by decide, by decide, by decide, by decide⟩
  have hdecimal : SpellsDecimal "18014398509481987" (2 ^ 54 + 3) := ⟨by decide, by decide, by decide⟩
  have hdiffer : ofText "0b1000000000000000000000000000000000000000000000000000011" ≠ ofText "18014398509481987" := by
    decide +kernel
  exact hdiffer (h .binary _ _ _ htext hdecimal)

end PropertyExpr.Number
