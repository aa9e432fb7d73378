import PropertyExpr.Proofs.NotNaN
import PropertyExpr.Proofs.Radices
/-!
# The grammar of number texts

Which texts are numbers is said without reading them: nothing, `Infinity` with or without a sign, digits behind the
prefix of a radix, and decimals (`IsNumeral`). **The value of a text is a NaN just when it is none of these between
blanks** (`ofText_isNaN_iff`). So no check of the reader turns a number away, and digits that go on for long end in an
infinity or in zero.
-/
namespace PropertyExpr.Number

/-- The digits of a radix. -/
def Radix.digits : Radix → List Char
  | binary => "01".toList
  | octal => "01234567".toList
  | hexadecimal => "0123456789abcdefABCDEF".toList

/-- A sign or none. -/
def IsSign (cs : List Char) : Prop := cs = [] ∨ cs = ['+'] ∨ cs = ['-']

/-- One decimal digit or more. -/
def IsDigits (cs : List Char) : Prop := cs ≠ [] ∧ ∀ c ∈ cs, c.isDigit

/-- Digits with a point among or behind them or without one, or a point before digits. -/
inductive IsMantissa : List Char → Prop where
  | whole {digits : List Char} (h : IsDigits digits) : IsMantissa digits
  | pointed {whole fraction : List Char} (hwhole : IsDigits whole) (hfraction : ∀ c ∈ fraction, c.isDigit) :
      IsMantissa (whole ++ '.' :: fraction)
  | fraction {fraction : List Char} (h : IsDigits fraction) : IsMantissa ('.' :: fraction)

inductive IsExponent : List Char → Prop where
  | none : IsExponent []
  | power {letter : Char} {sign digits : List Char} (hletter : letter = 'e' ∨ letter = 'E') (hsign : IsSign sign)
      (hdigits : IsDigits digits) : IsExponent (letter :: (sign ++ digits))

def IsDecimal (cs : List Char) : Prop :=
  ∃ sign mantissa exponent,
    cs = sign ++ (mantissa ++ exponent) ∧ IsSign sign ∧ IsMantissa mantissa ∧ IsExponent exponent

/-- The texts that are numbers, without blanks around them. -/
inductive IsNumeral : List Char → Prop where
  | empty : IsNumeral []
  | infinity {sign : List Char} (hsign : IsSign sign) : IsNumeral (sign ++ "Infinity".toList)
  | radix (r : Radix) {letter : Char} {digits : List Char} (hletter : letter ∈ r.letters) (hne : digits ≠ [])
      (hdigits : ∀ c ∈ digits, c ∈ r.digits) : IsNumeral ('0' :: letter :: digits)
  | decimal {cs : List Char} (h : IsDecimal cs) : IsNumeral cs

section
variable {cs rest : List Char} {c : Char}

/-! ## Decimals -/

theorem exists_isSign_append (cs : List Char) : ∃ sign, IsSign sign ∧ cs = sign ++ (readSign cs).2 := by
  unfold readSign
  split
  · exact ⟨['-'], .inr (.inr rfl), rfl⟩
  · exact ⟨['+'], .inr (.inl rfl), rfl⟩
  · exact ⟨[], .inl rfl, rfl⟩

/-- A sign is read before what starts with no other. -/
theorem readSign_append {sign : List Char} (hsign : IsSign sign)
    (hrest : ∀ c, rest.head? = some c → c ≠ '+' ∧ c ≠ '-') : (readSign (sign ++ rest)).2 = rest := by
  rcases hsign with rfl | rfl | rfl
  · rw [List.nil_append]
    unfold readSign
    split
    · exact absurd rfl (hrest _ rfl).2
    · exact absurd rfl (hrest _ rfl).1
    · rfl
  · rfl
  · rfl

/-- No digit is a sign. -/
theorem ne_sign_of_isDigit (h : c.isDigit) : c ≠ '+' ∧ c ≠ '-' := by
  constructor
  · rintro rfl
    cases h
  · rintro rfl
    cases h

theorem IsDigits.head {digits : List Char} (h : IsDigits digits) (hc : (digits ++ rest).head? = some c) :
    c.isDigit := by
  obtain ⟨d, ds, rfl⟩ := List.exists_cons_of_ne_nil h.1
  obtain rfl : d = c := Option.some.inj hc
  exact h.2 d List.mem_cons_self

theorem readExponent?_isSome_iff : (readExponent? cs).isSome ↔ IsExponent cs := by
  constructor
  · intro h
    cases cs with
    | nil => exact .none
    | cons letter cs =>
      obtain ⟨sign, hsign, hcs⟩ := exists_isSign_append cs
      rw [readExponent?] at h
      simp only at h
      split at h
      · rename_i hpower
        rw [hcs]
        exact .power hpower.1 hsign ⟨hpower.2.1, List.all_eq_true.1 hpower.2.2⟩
      · cases h
  · rintro (_ | ⟨hletter, hsign, hdigits⟩)
    · rfl
    · rename_i letter sign digits
      have hread : (readSign (sign ++ digits)).2 = digits := readSign_append hsign fun c hc =>
        ne_sign_of_isDigit (hdigits.head (by rwa [List.append_nil]))
      rw [readExponent?]
      simp only [hread]
      rw [if_pos ⟨hletter, hdigits.1, List.all_eq_true.2 hdigits.2⟩]
      rfl

/-- An exponent starts with a letter. -/
theorem IsExponent.head (h : IsExponent cs) (hc : cs.head? = some c) : c.isDigit = false ∧ c ≠ '.' := by
  cases h with
  | none => cases hc
  | power hletter =>
    obtain rfl := Option.some.inj hc
    rcases hletter with rfl | rfl <;> decide

/-- The parts in which digits are read: those before a point, and a point with those behind it, or no point. -/
theorem exists_parts_of_readUnsigned? (h : (readUnsigned? cs).isSome) :
    ∃ mantissa exponent, cs = mantissa ++ exponent ∧ IsMantissa mantissa ∧ IsExponent exponent := by
  have hdigits (cs : List Char) : ∀ c ∈ cs.takeWhile Char.isDigit, c.isDigit := List.all_eq_true.1 List.all_takeWhile
  have hwhole := hdigits cs
  have hcs := List.takeWhile_append_dropWhile (p := Char.isDigit) (l := cs)
  rw [readUnsigned?] at h
  generalize cs.takeWhile Char.isDigit = whole at hwhole hcs h
  generalize cs.dropWhile Char.isDigit = behind at hcs h
  unfold readFraction at h
  split at h
  rename_i fraction rest hfraction
  split at h
  · cases h
  rename_i hne
  rw [Option.isSome_map, readExponent?_isSome_iff] at h
  split at hfraction
  · rename_i tail
    cases hfraction
    refine ⟨whole ++ '.' :: tail.takeWhile Char.isDigit, _, ?_, ?_, h⟩
    · rw [List.append_assoc, List.cons_append, List.takeWhile_append_dropWhile, hcs]
    · by_cases hnil : whole = []
      · subst hnil
        exact .fraction ⟨by simpa using hne, hdigits tail⟩
      · exact .pointed ⟨hnil, hwhole⟩ (hdigits tail)
  · cases hfraction
    exact ⟨whole, _, hcs.symm, .whole ⟨by simpa using hne, hwhole⟩, h⟩

/-- Digits on one side of a point at least are read up to the exponent. -/
theorem readUnsigned?_isSome_of_pointed {whole fraction exponent : List Char} (hwhole : ∀ c ∈ whole, c.isDigit)
    (hfraction : ∀ c ∈ fraction, c.isDigit) (hne : whole ≠ [] ∨ fraction ≠ []) (hexponent : IsExponent exponent) :
    (readUnsigned? (whole ++ '.' :: (fraction ++ exponent))).isSome := by
  have hpoint : ∀ c, ('.' :: (fraction ++ exponent)).head? = some c → c.isDigit = false := by
    rintro c ⟨⟩
    rfl
  have hspan := span_digits hwhole hpoint
  have hspan' := span_digits hfraction fun c hc => (hexponent.head hc).1
  have hsome : ¬ (whole.isEmpty && fraction.isEmpty) := by
    rcases hne with hne | hne
    · simp [hne]
    · simp [hne]
  rw [readUnsigned?, hspan.1, hspan.2, readFraction, hspan'.1, hspan'.2]
  simp only
  rw [if_neg hsome, Option.isSome_map, readExponent?_isSome_iff]
  exact hexponent

/-- What follows digits without a point is the exponent. -/
theorem readUnsigned?_isSome_of_isDigits {digits exponent : List Char} (hdigits : IsDigits digits)
    (hexponent : IsExponent exponent) : (readUnsigned? (digits ++ exponent)).isSome := by
  have hspan := span_digits hdigits.2 fun c hc => (hexponent.head hc).1
  have hread : readFraction exponent = ([], exponent) := by
    unfold readFraction
    split
    · exact absurd rfl (hexponent.head rfl).2
    · rfl
  have hsome : ¬ (digits.isEmpty && ([] : List Char).isEmpty) := by simp [hdigits.1]
  rw [readUnsigned?, hspan.1, hspan.2, hread]
  simp only
  rw [if_neg hsome, Option.isSome_map, readExponent?_isSome_iff]
  exact hexponent

theorem IsMantissa.readUnsigned?_isSome {mantissa exponent : List Char} (hmantissa : IsMantissa mantissa)
    (hexponent : IsExponent exponent) : (readUnsigned? (mantissa ++ exponent)).isSome := by
  cases hmantissa with
  | whole h => exact readUnsigned?_isSome_of_isDigits h hexponent
  | pointed hwhole hfraction =>
    rw [List.append_assoc]
    exact readUnsigned?_isSome_of_pointed hwhole.2 hfraction (.inl hwhole.1) hexponent
  | fraction h => exact readUnsigned?_isSome_of_pointed (List.forall_mem_nil _) h.2 (.inr h.1) hexponent

/-- A mantissa starts with a digit or a point. -/
theorem IsMantissa.head {mantissa : List Char} (h : IsMantissa mantissa) (hc : (mantissa ++ rest).head? = some c) :
    c ≠ '+' ∧ c ≠ '-' := by
  cases h with
  | whole h => exact ne_sign_of_isDigit (h.head hc)
  | pointed hwhole =>
    rw [List.append_assoc] at hc
    exact ne_sign_of_isDigit (hwhole.head hc)
  | fraction =>
    obtain rfl : '.' = c := Option.some.inj hc
    decide

theorem readDecimal?_isSome_iff : (readDecimal? cs).isSome ↔ IsDecimal cs := by
  rw [readDecimal?, Option.isSome_map]
  constructor
  · intro h
    obtain ⟨sign, hsign, hcs⟩ := exists_isSign_append cs
    obtain ⟨mantissa, exponent, hread, hmantissa, hexponent⟩ := exists_parts_of_readUnsigned? h
    rw [hread] at hcs
    exact ⟨sign, mantissa, exponent, hcs, hsign, hmantissa, hexponent⟩
  · rintro ⟨sign, mantissa, exponent, rfl, hsign, hmantissa, hexponent⟩
    rw [readSign_append hsign fun c hc => hmantissa.head hc]
    exact hmantissa.readUnsigned?_isSome hexponent

theorem isNaN_nan : nan.isNaN = true := by decide +kernel

/-- The double of a decimal is no NaN, so a NaN says that there is none. -/
theorem isNaN_readDouble?_eq_false_iff : ((readDouble? cs).getD nan).isNaN = false ↔ IsDecimal cs := by
  rw [← readDecimal?_isSome_iff, readDouble?]
  cases readDecimal? cs with
  | none =>
    rw [Option.map_none, Option.getD_none, isNaN_nan]
    exact iff_of_false Bool.noConfusion Bool.noConfusion
  | some d =>
    rw [Option.map_some, Option.getD_some]
    refine iff_of_true ?_ rfl
    simp only
    split
    · exact isNaN_neg d.2.isNaN_toFloat
    · exact d.2.isNaN_toFloat

/-! ## Integers behind a prefix -/

/-- Digits by their code points. -/
theorem digit?_isSome_iff_toNat {radix : Nat} : (digit? radix c).isSome ↔
    48 ≤ c.toNat ∧ c.toNat ≤ 57 ∧ c.toNat < 48 + radix ∨ 97 ≤ c.toNat ∧ c.toNat ≤ 122 ∧ c.toNat < 87 + radix ∨
      65 ≤ c.toNat ∧ c.toNat ≤ 90 ∧ c.toNat < 55 + radix := by
  have hlower : c.isLower ↔ 97 ≤ c.toNat ∧ c.toNat ≤ 122 :=
    Bool.and_eq_true_iff.trans (and_congr decide_eq_true_iff decide_eq_true_iff)
  have hupper : c.isUpper ↔ 65 ≤ c.toNat ∧ c.toNat ≤ 90 := decide_eq_true_iff
  have hdigit : c.isDigit ↔ 48 ≤ c.toNat ∧ c.toNat ≤ 57 := Char.isDigit_iff_toNat
  have hzero : '0'.toNat = 48 := rfl
  have ha : 'a'.toNat = 97 := rfl
  have hA : 'A'.toNat = 65 := rfl
  rw [digit?]
  simp only [Option.isSome_filter, hlower, hupper, hdigit, hzero, ha, hA]
  generalize c.toNat = n
  split
  · simp only [Option.any_some, decide_eq_true_eq]
    omega
  split
  · simp only [Option.any_some, decide_eq_true_eq]
    omega
  split
  · simp only [Option.any_some, decide_eq_true_eq]
    omega
  · simp only [Option.any_none, Bool.false_eq_true, false_iff]
    omega

theorem mem_iff_toNat_mem : c ∈ cs ↔ c.toNat ∈ cs.map Char.toNat := by
  simp [Char.toNat_inj]

theorem digit?_isSome_iff (r : Radix) : (digit? r.size c).isSome ↔ c ∈ r.digits := by
  rw [digit?_isSome_iff_toNat, mem_iff_toNat_mem]
  generalize c.toNat = n
  cases r with
  | binary =>
    have hdigits : Radix.binary.digits.map Char.toNat = [48, 49] := rfl
    rw [hdigits]
    simp only [List.mem_cons, List.not_mem_nil, or_false, Radix.size, Radix.bits]
    omega
  | octal =>
    have hdigits : Radix.octal.digits.map Char.toNat = [48, 49, 50, 51, 52, 53, 54, 55] := rfl
    rw [hdigits]
    simp only [List.mem_cons, List.not_mem_nil, or_false, Radix.size, Radix.bits]
    omega
  | hexadecimal =>
    have hdigits : Radix.hexadecimal.digits.map Char.toNat = [48, 49, 50, 51, 52, 53, 54, 55, 56, 57, 97, 98, 99,
      100, 101, 102, 65, 66, 67, 68, 69, 70] := rfl
    rw [hdigits]
    simp only [List.mem_cons, List.not_mem_nil, or_false, Radix.size, Radix.bits]
    omega

theorem appendDigits_eq_nan {radix : Nat} (h : ∃ c ∈ cs, digit? radix c = none) (x : Float) :
    appendDigits radix x cs = nan := by
  induction cs generalizing x with
  | nil =>
    obtain ⟨c, hc, -⟩ := h
    cases hc
  | cons c cs ih =>
    rw [appendDigits]
    split
    · rename_i d hd
      apply ih
      obtain ⟨c', hc', hnone⟩ := h
      rcases List.mem_cons.1 hc' with rfl | hc'
      · cases hd.symm.trans hnone
      · exact ⟨c', hc', hnone⟩
    · rfl

theorem exists_mapM_digit? {radix : Nat} (h : ∀ c ∈ cs, (digit? radix c).isSome) :
    ∃ ds, cs.mapM (digit? radix) = some ds := by
  induction cs with
  | nil => exact ⟨[], rfl⟩
  | cons c cs ih =>
    rw [List.forall_mem_cons] at h
    obtain ⟨d, hd⟩ := Option.isSome_iff_exists.1 h.1
    obtain ⟨ds, hds⟩ := ih h.2
    exact ⟨d :: ds, by rw [List.mapM_cons, hd, hds]; rfl⟩

/-- Digits of the radix are the double of some natural number, however many they are. -/
theorem isNaN_ofRadix_eq_false_iff (r : Radix) :
    (ofRadix r.size cs).isNaN = false ↔ cs ≠ [] ∧ ∀ c ∈ cs, c ∈ r.digits := by
  rw [ofRadix]
  by_cases hne : cs = []
  · rw [if_pos (List.isEmpty_iff.2 hne), isNaN_nan]
    exact iff_of_false Bool.noConfusion fun h => h.1 hne
  rw [if_neg (by simpa using hne)]
  by_cases hdigits : ∀ c ∈ cs, c ∈ r.digits
  · obtain ⟨ds, hds⟩ := exists_mapM_digit? fun c hc => (digit?_isSome_iff r).2 (hdigits c hc)
    have hvalue : appendDigits r.size 0.0 cs = _ := appendDigits_ofNat hds 0
    rw [hvalue]
    exact iff_of_true (isNaN_ofNat _) ⟨hne, hdigits⟩
  · have hnan : ∃ c ∈ cs, digit? r.size c = none := by
      simpa [← digit?_isSome_iff] using hdigits
    rw [appendDigits_eq_nan hnan, isNaN_nan]
    exact iff_of_false Bool.noConfusion fun h => hdigits h.2

theorem radixPrefix?_eq_some_iff {radix : Nat} {digits : List Char} : radixPrefix? cs = some (radix, digits) ↔
    ∃ r : Radix, radix = r.size ∧ ∃ letter ∈ r.letters, cs = '0' :: letter :: digits := by
  constructor
  · intro h
    unfold radixPrefix? at h
    split at h
    · rename_i letter tail
      split at h
      · rename_i hletter
        cases h
        exact ⟨.hexadecimal, rfl, letter, by simpa [Radix.letters] using hletter, rfl⟩
      split at h
      · rename_i hletter
        cases h
        exact ⟨.octal, rfl, letter, by simpa [Radix.letters] using hletter, rfl⟩
      split at h
      · rename_i hletter
        cases h
        exact ⟨.binary, rfl, letter, by simpa [Radix.letters, or_comm] using hletter, rfl⟩
      · cases h
    · cases h
  · rintro ⟨r, rfl, letter, hletter, rfl⟩
    cases r <;> simp [Radix.letters] at hletter <;> rcases hletter with rfl | rfl <;> rfl

/-! ## All texts -/

theorem IsSign.isNumeralPart {sign : List Char} (h : IsSign sign) (hc : c ∈ sign) : isNumeralPart c := by
  rcases h with rfl | rfl | rfl
  · cases hc
  · rw [List.mem_singleton.1 hc]
    rfl
  · rw [List.mem_singleton.1 hc]
    rfl

theorem isNumeralPart_or_eq_of_mem_isDecimal (h : IsDecimal cs) (hc : c ∈ cs) : isNumeralPart c ∨ c = 'E' := by
  obtain ⟨sign, mantissa, exponent, rfl, hsign, hmantissa, hexponent⟩ := h
  have hdigit {digits : List Char} (h : ∀ c ∈ digits, c.isDigit) (hc : c ∈ digits) : isNumeralPart c ∨ c = 'E' :=
    .inl (isNumeralPart_of_isDigit (h c hc))
  rcases List.mem_append.1 hc with hc | hc
  · exact .inl (hsign.isNumeralPart hc)
  rcases List.mem_append.1 hc with hc | hc
  · cases hmantissa with
    | whole h => exact hdigit h.2 hc
    | pointed hwhole hfraction =>
      rcases List.mem_append.1 hc with hc | hc
      · exact hdigit hwhole.2 hc
      rcases List.mem_cons.1 hc with rfl | hc
      · exact .inl rfl
      · exact hdigit hfraction hc
    | fraction h =>
      rcases List.mem_cons.1 hc with rfl | hc
      · exact .inl rfl
      · exact hdigit h.2 hc
  · cases hexponent with
    | none => cases hc
    | power hletter hsign hdigits =>
      rcases List.mem_cons.1 hc with rfl | hc
      · rcases hletter with rfl | rfl
        · exact .inl rfl
        · exact .inr rfl
      rcases List.mem_append.1 hc with hc | hc
      · exact .inl (hsign.isNumeralPart hc)
      · exact hdigit hdigits.2 hc

theorem not_isNumeralPart_of_mem_letters {r : Radix} {letter : Char} (h : letter ∈ r.letters) :
    isNumeralPart letter = false ∧ letter ≠ 'E' := by
  cases r <;> simp [Radix.letters] at h <;> rcases h with rfl | rfl <;> decide

/-- Neither a prefix nor a word is a decimal, so a decimal is read as one. -/
theorem ofTrimmed_of_isDecimal (h : IsDecimal cs) : ofTrimmed cs = (readDouble? cs).getD nan := by
  have hword {w : List Char} (hw : 'I' ∈ w) : cs ≠ w := by
    rintro rfl
    exact absurd (isNumeralPart_or_eq_of_mem_isDecimal h hw) (by decide)
  have hne : cs ≠ [] := by
    rintro rfl
    exact absurd (readDecimal?_isSome_iff.2 h) (by decide)
  have hprefix : radixPrefix? cs = none := by
    cases hread : radixPrefix? cs with
    | none => rfl
    | some found =>
      obtain ⟨r, -, letter, hletter, rfl⟩ := radixPrefix?_eq_some_iff.1 hread
      obtain ⟨hpart, hne⟩ := not_isNumeralPart_of_mem_letters hletter
      have hmem : letter ∈ '0' :: letter :: found.2 := by simp
      rcases isNumeralPart_or_eq_of_mem_isDecimal h hmem with h | h
      · rw [hpart] at h
        cases h
      · exact absurd h hne
  rw [ofTrimmed, if_neg (by simpa using hne), if_neg (not_or.2 ⟨hword (by decide), hword (by decide)⟩),
    if_neg (hword (by decide)), hprefix]

theorem isNaN_ofTrimmed_of_isNumeral (h : IsNumeral cs) : (ofTrimmed cs).isNaN = false := by
  cases h with
  | empty => decide +kernel
  | infinity hsign => rcases hsign with rfl | rfl | rfl <;> decide +kernel
  | radix r hletter hne hdigits =>
    rename_i letter digits
    have hprefix : radixPrefix? ('0' :: letter :: digits) = some (r.size, digits) :=
      radixPrefix?_eq_some_iff.2 ⟨r, rfl, letter, hletter, rfl⟩
    rw [ofTrimmed, if_neg (by simp), if_neg (by simp), if_neg (by simp), hprefix]
    exact (isNaN_ofRadix_eq_false_iff r).2 ⟨hne, hdigits⟩
  | decimal h =>
    rw [ofTrimmed_of_isDecimal h]
    exact isNaN_readDouble?_eq_false_iff.2 h

theorem isNumeral_of_isNaN_ofTrimmed (h : (ofTrimmed cs).isNaN = false) : IsNumeral cs := by
  rw [ofTrimmed] at h
  split at h
  · rename_i hnil
    rw [List.isEmpty_iff.1 hnil]
    exact .empty
  split at h
  · rename_i hword
    rcases hword with rfl | rfl
    · exact .infinity (.inl rfl)
    · exact .infinity (.inr (.inl rfl))
  split at h
  · rename_i hword
    rw [hword]
    exact .infinity (.inr (.inr rfl))
  split at h
  · rename_i hread
    obtain ⟨r, rfl, letter, hletter, rfl⟩ := radixPrefix?_eq_some_iff.1 hread
    obtain ⟨hne, hdigits⟩ := (isNaN_ofRadix_eq_false_iff r).1 h
    exact .radix r hletter hne hdigits
  · exact .decimal (isNaN_readDouble?_eq_false_iff.1 h)

/-- The value of a text without blanks around it is a NaN just when it is no numeral. -/
theorem isNaN_ofTrimmed_eq_false_iff : (ofTrimmed cs).isNaN = false ↔ IsNumeral cs :=
  ⟨isNumeral_of_isNaN_ofTrimmed, isNaN_ofTrimmed_of_isNumeral⟩

theorem isBlank_of_isAlphanum (h : c.isAlphanum) : Text.isBlank c = false :=
  isBlank_of_isIdentifierPart (by simp [isIdentifierPart, h])

/-- No numeral has a blank in it. -/
theorem isBlank_of_mem_isNumeral (h : IsNumeral cs) (hc : c ∈ cs) : Text.isBlank c = false := by
  cases h with
  | empty => cases hc
  | infinity hsign =>
    rcases List.mem_append.1 hc with hc | hc
    · exact isBlank_of_isNumeralPart (hsign.isNumeralPart hc)
    · exact isBlank_of_isAlphanum (List.all_eq_true.1 (by decide) c hc)
  | radix r hletter hne hdigits =>
    rcases List.mem_cons.1 hc with rfl | hc
    · decide
    rcases List.mem_cons.1 hc with rfl | hc
    · cases r <;> simp [Radix.letters] at hletter <;> rcases hletter with rfl | rfl <;> decide
    · obtain ⟨d, hd⟩ := Option.isSome_iff_exists.1 ((digit?_isSome_iff r).2 (hdigits c hc))
      exact isBlank_of_isAlphanum (isAlphanum_of_digit? hd)
  | decimal h =>
    rcases isNumeralPart_or_eq_of_mem_isDecimal h hc with h | rfl
    · exact isBlank_of_isNumeralPart h
    · decide

end

/-! ## Blanks around them -/

/-- `cs` between blanks. -/
def IsPadded (text cs : List Char) : Prop :=
  ∃ before after, text = before ++ (cs ++ after) ∧ (∀ c ∈ before, Text.isBlank c) ∧ ∀ c ∈ after, Text.isBlank c

theorem exists_blanks_append_trimLeft (cs : List Char) :
    ∃ before, cs = before ++ Text.trimLeft cs ∧ ∀ c ∈ before, Text.isBlank c :=
  ⟨cs.takeWhile Text.isBlank, List.takeWhile_append_dropWhile.symm, List.all_eq_true.1 List.all_takeWhile⟩

/-- What is trimmed away are blanks. -/
theorem isPadded_trim (cs : List Char) : IsPadded cs (Text.trim cs) := by
  obtain ⟨before, hbefore, hblank⟩ := exists_blanks_append_trimLeft cs
  obtain ⟨after, hafter, hblank'⟩ := exists_blanks_append_trimLeft (Text.trimLeft cs).reverse
  refine ⟨before, after.reverse, ?_, hblank, fun c hc => hblank' c (List.mem_reverse.1 hc)⟩
  rw [Text.trim, ← List.reverse_append, ← hafter, List.reverse_reverse]
  exact hbefore

theorem trimLeft_append {before cs : List Char} (hbefore : ∀ c ∈ before, Text.isBlank c)
    (hcs : ∀ c, cs.head? = some c → Text.isBlank c = false) : Text.trimLeft (before ++ cs) = cs := by
  rw [Text.trimLeft, List.dropWhile_append_of_pos hbefore]
  cases cs with
  | nil => rfl
  | cons c cs => exact List.dropWhile_cons_of_neg (by simp [hcs c rfl])

/-- Blanks around a text without blanks are trimmed away. -/
theorem trim_eq_of_isPadded {text cs : List Char} (h : IsPadded text cs) (hcs : ∀ c ∈ cs, Text.isBlank c = false) :
    Text.trim text = cs := by
  obtain ⟨before, after, rfl, hbefore, hafter⟩ := h
  by_cases hnil : cs = []
  · subst hnil
    have hblank : ∀ c ∈ before ++ ([] ++ after), Text.isBlank c := List.forall_mem_append.2 ⟨hbefore, hafter⟩
    have hleft : Text.trimLeft (before ++ ([] ++ after)) = [] := List.dropWhile_eq_nil_iff.2 hblank
    rw [Text.trim, hleft]
    rfl
  · have hhead : ∀ c, (cs ++ after).head? = some c → Text.isBlank c = false := by
      intro c hc
      rw [List.head?_append_of_ne_nil _ hnil] at hc
      exact hcs c (List.mem_of_head? hc)
    have hlast : ∀ c, cs.reverse.head? = some c → Text.isBlank c = false := fun c hc =>
      hcs c (List.mem_reverse.1 (List.mem_of_head? hc))
    have hreverse : ∀ c ∈ after.reverse, Text.isBlank c := fun c hc => hafter c (List.mem_reverse.1 hc)
    rw [Text.trim, trimLeft_append hbefore hhead, List.reverse_append, trimLeft_append hreverse hlast,
      List.reverse_reverse]

/-- **A text is a NaN just when it is no numeral between blanks**; any numeral is a finite number or an infinity. -/
theorem ofText_isNaN_iff (s : String) :
    (ofText s).isNaN ↔ ¬ ∃ numeral, IsPadded s.toList numeral ∧ IsNumeral numeral := by
  have hiff : (∃ numeral, IsPadded s.toList numeral ∧ IsNumeral numeral) ↔ (ofText s).isNaN = false := by
    rw [ofText, isNaN_ofTrimmed_eq_false_iff]
    constructor
    · rintro ⟨numeral, hpadded, hnumeral⟩
      rwa [trim_eq_of_isPadded hpadded fun c hc => isBlank_of_mem_isNumeral hnumeral hc]
    · exact fun h => ⟨_, isPadded_trim _, h⟩
  rw [hiff, Bool.not_eq_false]

/-- There is no sign before a prefix. -/
example : (ofText "-0x10").isNaN = true := by decide +kernel

end PropertyExpr.Number
