import PropertyExpr.Json.Reader
import PropertyExpr.Json.Writer
import PropertyExpr.Proofs.Digits
/-!
# Written JSON tokens are read back

`first?_writeString` and `first?_toString` read a string and an integer off the front of a text, and
`decodeUnits?_units` and `toJson?_integerLiteral` find the value in what was read.
-/
namespace PropertyExpr.Json

open Token (first? stringBody? hexUnit? hexDigit? escaped?)

/-! ## Strings -/

section
variable {rest : List Char}

/-- The part of a string that a written character is read as. -/
def unitOf (c : Char) : StringUnit :=
  if c.toNat < 0x20 ∧ c ∉ ['\n', '\r', '\t', '\x08', '\x0c'] then .unit c.toNat else .char c

/-- What the inside of a string starts with. -/
def prepend (unit : StringUnit) (body : List StringUnit × List Char) : List StringUnit × List Char :=
  (unit :: body.1, body.2)

theorem stringBody?_escaped {e c : Char} (he : e ≠ 'u') (h : escaped? e = some c) :
    stringBody? ('\\' :: e :: rest) = (stringBody? rest).map (prepend (.char c)) := by
  rw [stringBody?, h]
  · cases stringBody? rest <;> rfl
  · exact fun _ _ _ _ _ h _ => he h

theorem stringBody?_plain {c : Char} (hquote : c ≠ '"') (hslash : c ≠ '\\') (hc : ¬ c.toNat < 0x20) :
    stringBody? (c :: rest) = (stringBody? rest).map (prepend (.char c)) := by
  rw [stringBody?, if_neg (by simp [hslash, hc])]
  · rfl
  · exact hquote
  · exact fun _ _ _ _ _ h _ => hslash h
  · exact fun _ _ h _ => hslash h

theorem hexDigit?_digitChar : ∀ d, d < 16 → hexDigit? (Nat.digitChar d) = some d := by decide

theorem stringBody?_unit {n : Nat} (hn : n < 0x20) :
    stringBody? ('\\' :: 'u' :: '0' :: '0' :: Nat.digitChar (n / 16) :: Nat.digitChar (n % 16) :: rest) =
      (stringBody? rest).map (prepend (.unit n)) := by
  have hzero : hexDigit? '0' = some 0 := by decide
  have hunit : hexUnit? '0' '0' (Nat.digitChar (n / 16)) (Nat.digitChar (n % 16)) = some n := by
    simp only [hexUnit?, hzero, hexDigit?_digitChar _ (show n / 16 < 16 by omega),
      hexDigit?_digitChar _ (show n % 16 < 16 by omega)]
    exact congrArg some (by omega)
  rw [stringBody?, hunit]
  cases stringBody? rest <;> rfl

/-- A written character is read as its part. -/
theorem stringBody?_escapeChar (c : Char) :
    stringBody? (escapeChar c ++ rest) = (stringBody? rest).map (prepend (unitOf c)) := by
  unfold escapeChar
  split
  case h_8 hquote hslash hn hr ht hb hf =>
    split
    · rename_i hc
      have hunit : unitOf c = .unit c.toNat := if_pos ⟨hc, by simpa using ⟨hn, hr, ht, hb, hf⟩⟩
      rw [hunit]
      exact stringBody?_unit hc
    · rename_i hc
      have hunit : unitOf c = .char c := if_neg fun h => hc h.1
      rw [hunit]
      exact stringBody?_plain hquote hslash hc
  all_goals exact stringBody?_escaped (by decide) rfl

theorem stringBody?_flatMap (cs : List Char) :
    stringBody? (cs.flatMap escapeChar ++ '"' :: rest) = some (cs.map unitOf, rest) := by
  induction cs with
  | nil => rfl
  | cons c cs ih =>
    rw [List.flatMap_cons, List.append_assoc, stringBody?_escapeChar, ih]
    rfl

theorem decodeUnits?_units (cs : List Char) : decodeUnits? (cs.map unitOf) = some cs := by
  induction cs with
  | nil => rfl
  | cons c cs ih =>
    rw [List.map_cons, unitOf]
    split
    · rename_i hc
      rw [decodeUnits?.eq_def]
      simp only
      rw [if_neg (by omega), if_neg (by omega), ih, Char.ofNat_toNat]
      rfl
    · rw [decodeUnits?, ih]
      rfl

/-- The parts that a written string is read as. -/
def unitsOf (s : String) : List StringUnit := s.toList.map unitOf

theorem decodeString?_unitsOf (s : String) : decodeString? (unitsOf s) = some s := by
  rw [decodeString?, unitsOf, decodeUnits?_units, Option.map_some, String.ofList_toList]

theorem first?_writeString (s : String) : first? (writeString s ++ rest) = some (.string (unitsOf s), rest) := by
  have hfirst (cs : List Char) : first? ('"' :: cs) =
      (stringBody? cs).map fun read => (Token.string read.1, read.2) := rfl
  simp only [writeString, List.cons_append, List.append_assoc, List.nil_append, hfirst, stringBody?_flatMap]
  rfl

end

/-! ## Integers -/

section
variable {rest : List Char}

/-- The text does not go on with a number. -/
def EndsNumber (cs : List Char) : Prop :=
  ∀ c, cs.head? = some c → c.isDigit = false ∧ c ≠ '.' ∧ c ≠ 'e' ∧ c ≠ 'E'

/-- The literal that a written integer is. -/
def integerLiteral (n : Int) : NumberLiteral := ⟨n < 0, Nat.toDigits 10 n.natAbs, none, none⟩

theorem whole?_toDigits (n : Nat) (hrest : EndsNumber rest) :
    Token.whole? (Nat.toDigits 10 n ++ rest) = some (Nat.toDigits 10 n, rest) := by
  obtain ⟨htake, hdrop⟩ := span_toDigits n fun c hc => (hrest c hc).1
  have hdigits : Token.digits? (Nat.toDigits 10 n ++ rest) = some (Nat.toDigits 10 n, rest) := by
    rw [Token.digits?, htake, hdrop]
    simp [Nat.toDigits_ne_nil]
  rw [Token.whole?, hdigits]
  split
  · rename_i c cs _ heq
    obtain ⟨heq, -⟩ := Prod.mk.inj (Option.some.inj heq)
    -- Zero has one digit only.
    rcases Nat.eq_zero_or_pos n with rfl | hn
    · simp [Nat.toDigits_zero] at heq
    · exact absurd (by rw [heq]; rfl) (head?_toDigits_ne_zero hn)
  · rfl

theorem number?_toDigits (negative : Bool) (n : Nat) (hrest : EndsNumber rest) :
    Token.number? negative (Nat.toDigits 10 n ++ rest) = some (⟨negative, Nat.toDigits 10 n, none, none⟩, rest) := by
  have hfraction : Token.fraction? rest = some (none, rest) := by
    unfold Token.fraction?
    split
    · exact absurd rfl (hrest _ rfl).2.1
    · rfl
  have hexponent : Token.exponent? rest = some (none, rest) := by
    cases rest with
    | nil => rfl
    | cons c cs =>
      obtain ⟨-, -, he, hE⟩ := hrest c rfl
      unfold Token.exponent?
      exact if_neg (by simp [he, hE])
  simp only [Token.number?, whole?_toDigits n hrest, hfraction, hexponent, Option.bind_eq_bind, Option.bind_some]
  rfl

theorem first?_digit {c : Char} (hc : c.isDigit) (cs : List Char) : first? (c :: cs) =
    (Token.number? false (c :: cs)).map fun read => (.number read.1, read.2) := by
  have hblank : ¬ Token.isBlank c := by
    intro h
    simp only [Token.isBlank, Bool.or_eq_true, decide_eq_true_eq] at h
    rcases h with ((rfl | rfl) | rfl) | rfl <;> exact absurd hc (by decide)
  rw [first?, List.dropWhile_cons_of_neg hblank]
  change Token.read? c cs = _
  unfold Token.read?
  split <;> first | rfl | exact absurd hc (by decide)

/-- A written integer is read as its literal. -/
theorem first?_toString (n : Int) (hrest : EndsNumber rest) :
    first? ((toString n).toList ++ rest) = some (.number (integerLiteral n), rest) := by
  have hnumber (negative : Bool) := number?_toDigits negative n.natAbs hrest
  rw [toList_toString, integerLiteral]
  split
  · rename_i hn
    have hfirst (cs : List Char) : first? ('-' :: cs) =
        (Token.number? true cs).map fun read => (.number read.1, read.2) := rfl
    rw [List.cons_append, hfirst, hnumber, decide_eq_true hn]
    rfl
  · rename_i hn
    obtain ⟨c, cs, hcs, hc⟩ := exists_toDigits_eq_cons n.natAbs
    rw [hcs] at hnumber ⊢
    rw [List.cons_append, first?_digit hc, ← List.cons_append, hnumber, decide_eq_false hn]
    rfl

theorem toJson?_integerLiteral {n : Int} (lower : Int64.minValue.toInt ≤ n) (upper : n < UInt64.size) :
    (integerLiteral n).toJson? = some (.int n) := by
  have hinteger : (integerLiteral n).integer? = some n := by
    simp only [NumberLiteral.integer?, integerLiteral, digitsValue_toDigits, Option.isSome_none, Bool.or_false,
      Bool.false_eq_true, if_false, decide_eq_true_eq]
    split
    · rw [if_pos (by omega)]
      exact congrArg some (by omega)
    · rw [if_pos (by omega)]
      exact congrArg some (by omega)
  rw [NumberLiteral.toJson?, hinteger]

end

end PropertyExpr.Json
