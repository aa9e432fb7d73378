import Mathlib.Algebra.Group.Nat.Defs
import PropertyExpr.Number.Coercion
import PropertyExpr.Proofs.Lexing
/-!
# Numerals

What is written for a decimal is read as that decimal (`readUnsigned?_scientific`, `readUnsigned?_positional`). A text
made of nothing but the characters of such numerals has no blanks, no radix prefix and no words to look for, so as a
number it is the decimal that it is read as, behind its sign (`ofText_of_readUnsigned?`).
-/
namespace PropertyExpr

/-! ## Reading digits, a point and an exponent -/

/-- The digits behind a point, and the point if there are any. -/
def pointed (fraction : List Char) : List Char := if fraction = [] then [] else '.' :: fraction

section
variable {whole fraction rest : List Char} {e : Int}

theorem digitsValue_append_zeros (digits : List Char) (k : Nat) :
    digitsValue (digits ++ List.replicate k '0') = digitsValue digits * 10 ^ k := by
  induction k with
  | zero => rw [List.replicate_zero, List.append_nil, Nat.pow_zero, Nat.mul_one]
  | succ k ih =>
    rw [List.replicate_succ', ← List.append_assoc, digitsValue, List.foldl_append, ← digitsValue, ih, Nat.pow_succ,
      ← Nat.mul_assoc]
    exact Nat.mul_comm _ _

theorem readFraction_pointed (hfraction : ∀ c ∈ fraction, c.isDigit)
    (hrest : ∀ c, rest.head? = some c → c.isDigit = false ∧ c ≠ '.') :
    readFraction (pointed fraction ++ rest) = (fraction, rest) := by
  have hspan := span_digits hfraction fun c hc => (hrest c hc).1
  rw [pointed]
  split
  · rename_i hnil
    subst hnil
    cases rest with
    | nil => rfl
    | cons c cs =>
      have hpoint := (hrest c rfl).2
      rw [List.nil_append, readFraction]
      rintro cs' h
      exact hpoint (List.cons.inj h).1
  · rw [List.cons_append, readFraction, hspan.1, hspan.2]

/-- Digits, a point and digits, and an exponent are read as a decimal. -/
theorem readUnsigned?_pointed (hne : whole ≠ []) (hwhole : ∀ c ∈ whole, c.isDigit)
    (hfraction : ∀ c ∈ fraction, c.isDigit) (hrest : ∀ c, rest.head? = some c → c.isDigit = false ∧ c ≠ '.')
    (hexponent : readExponent? rest = some e) :
    readUnsigned? (whole ++ (pointed fraction ++ rest)) =
      some ⟨digitsValue (whole ++ fraction), e - fraction.length⟩ := by
  have hhead : ∀ c, (pointed fraction ++ rest).head? = some c → c.isDigit = false := by
    intro c hc
    rw [pointed] at hc
    split at hc
    · exact (hrest c hc).1
    · cases hc
      rfl
  have hspan := span_digits hwhole hhead
  have hempty : whole.isEmpty = false := List.isEmpty_eq_false_iff.2 hne
  rw [readUnsigned?]
  simp only [hspan.1, hspan.2, readFraction_pointed hfraction hrest, hempty, hexponent, Bool.false_and,
    Option.map_some]
  rfl

/-- The exponent that is written is read. -/
theorem readExponent?_signed (first : Int) :
    readExponent? ('e' :: (if first < 0 then '-' else '+') :: Nat.toDigits 10 first.natAbs) = some first := by
  have hall : (Nat.toDigits 10 first.natAbs).all Char.isDigit = true := List.all_eq_true.2 isDigit_of_mem_toDigits
  have hvalue := digitsValue_toDigits first.natAbs
  by_cases h : first < 0
  · rw [if_pos h, readExponent?, readSign]
    simp only [hall, hvalue]
    rw [if_pos ⟨.inl trivial, Nat.toDigits_ne_nil, trivial⟩, if_pos trivial]
    congr 1
    omega
  · rw [if_neg h, readExponent?, readSign]
    simp only [hall, hvalue]
    rw [if_pos ⟨.inl trivial, Nat.toDigits_ne_nil, trivial⟩, if_neg (by decide)]
    congr 1
    omega

/-! ## What is written is read -/

variable {digits : List Char} {n : Nat}

theorem isDigit_of_mem_zeros {k : Nat} (c : Char) (hc : c ∈ List.replicate k '0') : c.isDigit := by
  rw [List.eq_of_mem_replicate hc]
  rfl

/-- Digits alone are a decimal without a fraction. -/
theorem readUnsigned?_digits (hne : digits ≠ []) (hdigits : ∀ c ∈ digits, c.isDigit) :
    readUnsigned? digits = some ⟨digitsValue digits, (0 : Nat)⟩ := by
  have hread : readUnsigned? (digits ++ (pointed [] ++ [])) = some ⟨digitsValue (digits ++ []), 0 - (0 : Nat)⟩ :=
    readUnsigned?_pointed hne hdigits (by simp) (by simp) rfl
  rwa [pointed, if_pos rfl, List.append_nil, List.append_nil] at hread

/-- Digits on both sides of a point. -/
theorem readUnsigned?_point (hne : whole ≠ []) (hwhole : ∀ c ∈ whole, c.isDigit) (hne' : fraction ≠ [])
    (hfraction : ∀ c ∈ fraction, c.isDigit) :
    readUnsigned? (whole ++ '.' :: fraction) = some ⟨digitsValue (whole ++ fraction), -fraction.length⟩ := by
  have hread : readUnsigned? (whole ++ (pointed fraction ++ [])) =
      some ⟨digitsValue (whole ++ fraction), 0 - fraction.length⟩ :=
    readUnsigned?_pointed hne hwhole hfraction (by simp) rfl
  rwa [pointed, if_neg hne', List.append_nil, Int.zero_sub] at hread

/-- Zeros between the point and the digits. -/
theorem readUnsigned?_zeros (hne : digits ≠ []) (hdigits : ∀ c ∈ digits, c.isDigit) (k : Nat) :
    readUnsigned? ('0' :: '.' :: List.replicate k '0' ++ digits) =
      some ⟨digitsValue digits, -(k + digits.length)⟩ := by
  have hread : readUnsigned? (['0'] ++ '.' :: (List.replicate k '0' ++ digits)) = some
      ⟨digitsValue (List.replicate (k + 1) '0' ++ digits), -(List.replicate k '0' ++ digits).length⟩ :=
    readUnsigned?_point (by simp) (by simp) (by simp [hne]) (isDigit_of_mem_replicate_append hdigits)
  rwa [digitsValue_replicate_append, List.length_append, List.length_replicate, Int.natCast_add] at hread

theorem readUnsigned?_positional {layout : Layout} (hlayout : layout.fraction = false) (n : Nat) (exponent : Int) :
    readUnsigned? (layout.positional (Nat.toDigits 10 n) exponent) =
      some (if 0 ≤ exponent then ⟨n * 10 ^ exponent.toNat, (0 : Nat)⟩ else ⟨n, exponent⟩) := by
  have hlength : 0 < (Nat.toDigits 10 n).length := Nat.length_toDigits_pos
  have hdigits : ∀ c ∈ Nat.toDigits 10 n, c.isDigit := isDigit_of_mem_toDigits
  have hvalue := digitsValue_toDigits n
  generalize Nat.toDigits 10 n = digits at hlength hdigits hvalue
  have hne : digits ≠ [] := List.ne_nil_of_length_pos hlength
  rw [Layout.positional]
  simp only [hlayout]
  by_cases hexp : 0 ≤ exponent
  · -- zeros take the place of the exponent
    rw [if_pos hexp, if_pos hexp, if_neg (by decide), List.append_nil, readUnsigned?_digits, digitsValue_append_zeros,
      hvalue]
    · simp [hne]
    · intro c hc
      rcases List.mem_append.1 hc with hc | hc
      · exact hdigits c hc
      · exact isDigit_of_mem_zeros c hc
  · rw [if_neg hexp, if_neg hexp]
    by_cases hfirst : 0 ≤ exponent + digits.length - 1
    · -- the point is among the digits
      have hk : (exponent + digits.length - 1 + 1).toNat = (exponent + digits.length).toNat := by omega
      rw [if_pos hfirst, hk, readUnsigned?_point]
      · have hbehind : -((digits.drop (exponent + digits.length).toNat).length : Int) = exponent := by
          rw [List.length_drop]
          omega
        rw [List.take_append_drop, hvalue, hbehind]
      · rw [Ne, List.take_eq_nil_iff, not_or]
        exact ⟨by omega, hne⟩
      · exact fun c hc => hdigits c (List.mem_of_mem_take hc)
      · rw [Ne, List.drop_eq_nil_iff]
        omega
      · exact fun c hc => hdigits c (List.mem_of_mem_drop hc)
    · -- zeros stand between the point and the digits
      rw [if_neg hfirst]
      have hbehind : -(((-(exponent + digits.length - 1) - 1).toNat : Int) + digits.length) = exponent := by omega
      rw [readUnsigned?_zeros hne hdigits, hvalue, hbehind]

theorem readUnsigned?_scientific (n : Nat) (exponent : Int) :
    readUnsigned? (Layout.scientific (Nat.toDigits 10 n) (exponent + (Nat.toDigits 10 n).length - 1)) =
      some ⟨n, exponent⟩ := by
  have hdigits : ∀ c ∈ Nat.toDigits 10 n, c.isDigit := isDigit_of_mem_toDigits
  have hvalue := digitsValue_toDigits n
  obtain ⟨c, cs, hcs, hc⟩ := exists_toDigits_eq_cons n
  rw [hcs] at hdigits hvalue ⊢
  have hpointed : (if (c :: cs).length ≤ 1 then [] else '.' :: (c :: cs).drop 1) = pointed cs := by
    cases cs with
    | nil => rfl
    | cons d cs => rfl
  have hread : readUnsigned? ([c] ++ (pointed cs ++ _)) = some ⟨digitsValue ([c] ++ cs), _⟩ :=
    readUnsigned?_pointed (by simp) (fun d hd => hdigits d (List.mem_cons.2 (.inl (List.mem_singleton.1 hd))))
      (fun d hd => hdigits d (List.mem_cons_of_mem c hd)) (by simp)
      (readExponent?_signed (exponent + (c :: cs).length - 1))
  have hexponent : exponent + (c :: cs).length - 1 - cs.length = exponent := by
    rw [List.length_cons]
    omega
  rw [List.singleton_append, List.singleton_append, hvalue, hexponent] at hread
  rwa [Layout.scientific, hpointed, List.append_assoc]

/-! ## Texts that are numerals -/

/-- The characters of numerals. -/
def isNumeralPart (c : Char) : Bool := c.isDigit || c ∈ ['.', 'e', '+', '-']

theorem isNumeralPart_of_isDigit {c : Char} (h : c.isDigit) : isNumeralPart c := by
  rw [isNumeralPart, h, Bool.true_or]

theorem isNumeralPart_of_mem_positional {layout : Layout} {digits : List Char} {exponent : Int}
    (hdigits : ∀ c ∈ digits, c.isDigit) : ∀ c ∈ layout.positional digits exponent, isNumeralPart c := by
  have hparts : ∀ c ∈ digits, isNumeralPart c := fun c hc => isNumeralPart_of_isDigit (hdigits c hc)
  have hzeros (k : Nat) : ∀ c ∈ List.replicate k '0', isNumeralPart c := fun c hc =>
    isNumeralPart_of_isDigit (isDigit_of_mem_zeros c hc)
  rw [Layout.positional]
  split
  · simp only [List.forall_mem_append]
    refine ⟨⟨hparts, hzeros _⟩, ?_⟩
    split
    · exact List.forall_mem_cons.2 ⟨rfl, List.forall_mem_singleton.2 rfl⟩
    · exact List.forall_mem_nil _
  split
  · simp only [List.forall_mem_append, List.forall_mem_cons]
    exact ⟨fun c hc => hparts c (List.mem_of_mem_take hc), rfl, fun c hc => hparts c (List.mem_of_mem_drop hc)⟩
  · simp only [List.forall_mem_append, List.forall_mem_cons]
    exact ⟨⟨rfl, rfl, hzeros _⟩, hparts⟩

theorem isNumeralPart_of_mem_scientific {digits : List Char} {first : Int} (hdigits : ∀ c ∈ digits, c.isDigit) :
    ∀ c ∈ Layout.scientific digits first, isNumeralPart c := by
  have hparts : ∀ c ∈ digits, isNumeralPart c := fun c hc => isNumeralPart_of_isDigit (hdigits c hc)
  rw [Layout.scientific]
  simp only [List.forall_mem_append, List.forall_mem_cons]
  refine ⟨⟨fun c hc => hparts c (List.mem_of_mem_take hc), ?_⟩, rfl, ?_, fun c hc =>
    isNumeralPart_of_isDigit (isDigit_of_mem_toDigits c hc)⟩
  · split
    · simp
    · exact List.forall_mem_cons.2 ⟨rfl, fun c hc => hparts c (List.mem_of_mem_drop hc)⟩
  · split <;> rfl

theorem isNumeralPart_of_mem_writeDecimal {layout : Layout} {d : Decimal} :
    ∀ c ∈ layout.writeDecimal d, isNumeralPart c := by
  rw [Layout.writeDecimal]
  split
  · exact isNumeralPart_of_mem_positional isDigit_of_mem_toDigits
  · exact isNumeralPart_of_mem_scientific isDigit_of_mem_toDigits

namespace Number

variable {cs : List Char} {d : Decimal}

theorem eq_of_isNumeralPart {c : Char} (h : isNumeralPart c) : c.isDigit ∨ c = '.' ∨ c = 'e' ∨ c = '+' ∨ c = '-' := by
  simpa [isNumeralPart] using h

theorem isBlank_of_isNumeralPart {c : Char} (h : isNumeralPart c) : Text.isBlank c = false := by
  rcases eq_of_isNumeralPart h with h | rfl | rfl | rfl | rfl
  · exact isBlank_of_isIdentifierPart (by simp [isIdentifierPart, Char.isAlphanum, h])
  · decide
  · decide
  · decide
  · decide

theorem radixPrefix?_of_isNumeralPart (h : ∀ c ∈ cs, isNumeralPart c) : radixPrefix? cs = none := by
  unfold radixPrefix?
  split
  next c cs =>
    have hletter {c' : Char} (hc' : isNumeralPart c' = false) : c ≠ c' := by
      rintro rfl
      have hc : isNumeralPart c := h c (by simp)
      rw [hc'] at hc
      cases hc
    rw [if_neg (not_or.2 ⟨hletter rfl, hletter rfl⟩), if_neg (not_or.2 ⟨hletter rfl, hletter rfl⟩),
      if_neg (not_or.2 ⟨hletter rfl, hletter rfl⟩)]
  next => rfl

theorem readSign_of_readUnsigned? (h : readUnsigned? cs = some d) : readSign cs = (false, cs) := by
  unfold readSign
  split
  · cases h
  · cases h
  · rfl

/-- A text of such characters is the decimal that it is read as. -/
theorem ofText_of_readDecimal? {negative : Bool} (hparts : ∀ c ∈ cs, isNumeralPart c)
    (h : readDecimal? cs = some (negative, d)) :
    ofText (String.ofList cs) = if negative then -d.toFloat else d.toFloat := by
  have hne : cs.isEmpty = false := by
    cases cs with
    | nil => cases h
    | cons c cs => rfl
  have hword {w : List Char} (hw : 'I' ∈ w) : cs ≠ w := by
    rintro rfl
    exact absurd (hparts 'I' hw) (by decide)
  have htrim : Text.trim cs = cs := Text.trim_eq_self fun c hc => isBlank_of_isNumeralPart (hparts c hc)
  rw [ofText, String.toList_ofList, htrim, ofTrimmed, hne, if_neg (by decide),
    if_neg (not_or.2 ⟨hword (by decide), hword (by decide)⟩), if_neg (hword (by decide)),
    radixPrefix?_of_isNumeralPart hparts]
  simp only [readDouble?, h, Option.map_some, Option.getD_some]

/-- An unsigned numeral, also behind a sign. -/
theorem ofText_of_readUnsigned? (hparts : ∀ c ∈ cs, isNumeralPart c) (h : readUnsigned? cs = some d) :
    ofText (String.ofList cs) = d.toFloat ∧ ofText (String.ofList ('-' :: cs)) = -d.toFloat ∧
      ofText (String.ofList ('+' :: cs)) = d.toFloat := by
  have hsigned {c : Char} (hc : isNumeralPart c) : ∀ c' ∈ c :: cs, isNumeralPart c' :=
    List.forall_mem_cons.2 ⟨hc, hparts⟩
  have hplain : readDecimal? cs = some (false, d) := by
    rw [readDecimal?, readSign_of_readUnsigned? h]
    simp only [h, Option.map_some]
  have hminus : readDecimal? ('-' :: cs) = some (true, d) := by
    rw [readDecimal?, readSign]
    simp only [h, Option.map_some]
  have hplus : readDecimal? ('+' :: cs) = some (false, d) := by
    rw [readDecimal?, readSign]
    simp only [h, Option.map_some]
  exact ⟨ofText_of_readDecimal? hparts hplain, ofText_of_readDecimal? (hsigned rfl) hminus,
    ofText_of_readDecimal? (hsigned rfl) hplus⟩

/-- Digits are the double nearest to their number, also behind a sign. -/
theorem ofText_digits {digits : List Char} (hne : digits ≠ []) (hdigits : ∀ c ∈ digits, c.isDigit) :
    ofText (String.ofList digits) = Float.ofNat (digitsValue digits) ∧
      ofText (String.ofList ('-' :: digits)) = -Float.ofNat (digitsValue digits) ∧
      ofText (String.ofList ('+' :: digits)) = Float.ofNat (digitsValue digits) :=
  ofText_of_readUnsigned? (fun c hc => isNumeralPart_of_isDigit (hdigits c hc)) (readUnsigned?_digits hne hdigits)

end Number

end

end PropertyExpr
