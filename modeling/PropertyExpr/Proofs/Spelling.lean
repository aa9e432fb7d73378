import PropertyExpr.Proofs.Lexing
/-!
# How tokens are spelled

`Spelled text kind` says what a token of the kind looks like: a name as it is, an integer as its digits with or
without zeros in front, a string literal with backslashes and quotes escaped. What is read as a token is spelled
that way, and is all that goes on with it (`Lexeme.spelled_of_read`); and what is spelled that way is read as the
token, before a text that does not go on with it (`lexes_spelled`).
-/
namespace PropertyExpr

/-- `text` is a token of the kind `kind`. -/
inductive Spelled : List Char → Token.Kind → Prop
  | ident {name : String} (valid : isIdentifier name) : Spelled name.toList (.ident name)
  | integer {digits : List Char} (nonempty : digits ≠ []) (decimal : ∀ c ∈ digits, c.isDigit)
      (inRange : digitsValue digits < UInt64.size) : Spelled digits (.integer (UInt64.ofNat (digitsValue digits)))
  | string (s : String) : Spelled ('"' :: Expr.escape s.toList ++ ['"']) (.string s)
  | punctuation {c : Char} {kind : Token.Kind} (single : Lexeme.punctuation? c = some kind) : Spelled [c] kind

/-- Whether a token of this kind takes in the character behind it. -/
def Token.Kind.goesOnWith : Token.Kind → Char → Bool
  | .ident _, c => isIdentifierPart c
  | .integer _, c => c.isDigit
  | _, _ => false

/-- Whether a token of this kind ends before `rest`. -/
def Token.Kind.EndsBefore (kind : Token.Kind) (rest : List Char) : Prop :=
  ∀ c, rest.head? = some c → kind.goesOnWith c = false

theorem Token.Kind.endsBefore_nil (kind : Token.Kind) : kind.EndsBefore [] := by
  rintro c ⟨⟩

theorem Token.Kind.endsBefore_cons {kind : Token.Kind} {c : Char} {cs : List Char} :
    kind.EndsBefore (c :: cs) ↔ kind.goesOnWith c = false := by
  simp [EndsBefore]

theorem Token.Kind.endsBefore_dropWhile (kind : Token.Kind) (cs : List Char) :
    kind.EndsBefore (cs.dropWhile kind.goesOnWith) := by
  intro c hc
  simpa [hc] using List.head?_dropWhile_not kind.goesOnWith cs

namespace Lexeme

variable {c : Char} {cs : List Char} {kind : Token.Kind}

theorem goesOnWith_of_punctuation? (h : punctuation? c = some kind) : kind.goesOnWith = fun _ => false := by
  unfold punctuation? at h
  split at h <;> first | (obtain rfl := Option.some.inj h; rfl) | cases h

/-- A string literal that is closed is written as its value is escaped. -/
theorem text_stringBody (h : (stringBody cs).ending = .closed) :
    (stringBody cs).text = Expr.escape (stringBody cs).value ++ ['"'] := by
  fun_induction stringBody cs with
  | case1 => cases h
  | case2 cs => rfl
  | case3 => cases h
  | case4 c cs hc ih =>
    simp only [StringBody.prepend, Expr.escape, if_pos hc, ih h, List.cons_append, List.nil_append]
  | case5 c cs hc => cases h
  | case6 c cs hquote hend hescape ih =>
    have hc : ¬ (c = '\\' ∨ c = '"') := by
      rintro (rfl | rfl)
      · cases cs with
        | nil => exact hend rfl rfl
        | cons d cs => exact hescape d cs rfl rfl
      · exact hquote rfl
    simp only [StringBody.prepend, Expr.escape, if_neg hc, ih h, List.cons_append, List.nil_append]

theorem spelled_of_ident (hc : isIdentifierStart c) (h : (ident (c :: cs)).outcome = .ok kind) :
    Spelled (ident (c :: cs)).text kind ∧ kind.EndsBefore (ident (c :: cs)).rest := by
  obtain rfl := Except.ok.inj h
  have hread : (read c cs).outcome = .ok (.ident (String.ofList ((c :: cs).takeWhile isIdentifierPart))) := by
    rw [read, if_pos hc, ident]
  have hspelled := Spelled.ident (isIdentifier_of_read hread)
  rw [String.toList_ofList] at hspelled
  exact ⟨hspelled, Token.Kind.endsBefore_dropWhile (.ident _) (c :: cs)⟩

theorem spelled_of_integer (hc : c.isDigit) (h : (integer (c :: cs)).outcome = .ok kind) :
    Spelled (integer (c :: cs)).text kind ∧ kind.EndsBefore (integer (c :: cs)).rest := by
  simp only [integer] at h ⊢
  split at h
  next hsize =>
    obtain rfl := Except.ok.inj h
    refine ⟨.integer ?_ (List.all_eq_true.1 List.all_takeWhile) hsize,
      Token.Kind.endsBefore_dropWhile (.integer _) (c :: cs)⟩
    rw [List.takeWhile_cons_of_pos hc]
    exact List.cons_ne_nil _ _
  next => cases h

theorem spelled_of_string (h : (string cs).outcome = .ok kind) :
    Spelled (string cs).text kind ∧ kind.EndsBefore (string cs).rest := by
  cases hending : (stringBody cs).ending with
  | closed =>
    simp only [string, hending] at h
    obtain rfl := Except.ok.inj h
    have hspelled := Spelled.string (String.ofList (stringBody cs).value)
    rw [String.toList_ofList, List.cons_append, ← text_stringBody hending] at hspelled
    exact ⟨hspelled, fun _ _ => rfl⟩
  | unterminated =>
    simp only [string, hending] at h
    cases h
  | badEscape =>
    simp only [string, hending] at h
    cases h

/-- What is read as a token is spelled as one, and nothing that goes on with it is left. -/
theorem spelled_of_read (h : (read c cs).outcome = .ok kind) :
    Spelled (read c cs).text kind ∧ kind.EndsBefore (read c cs).rest := by
  by_cases hstart : isIdentifierStart c
  · rw [read, if_pos hstart] at h ⊢
    exact spelled_of_ident hstart h
  by_cases hdigit : c.isDigit
  · rw [read, if_neg hstart, if_pos hdigit] at h ⊢
    exact spelled_of_integer hdigit h
  by_cases hquote : c = '"'
  · rw [read, if_neg hstart, if_neg hdigit, if_pos hquote] at h ⊢
    exact spelled_of_string h
  rw [read, if_neg hstart, if_neg hdigit, if_neg hquote] at h ⊢
  cases hpunctuation : punctuation? c with
  | none =>
    rw [hpunctuation] at h
    cases h
  | some kind' =>
    rw [hpunctuation] at h
    obtain rfl := Except.ok.inj h
    exact ⟨.punctuation hpunctuation, fun c _ => by rw [goesOnWith_of_punctuation? hpunctuation]⟩

end Lexeme

section Lexes

variable {text rest : List Char} {kind : Token.Kind} {ks : List Token.Kind}

/-- What is spelled as a token is read as it before a text that does not go on with it. -/
theorem lexes_spelled (h : Spelled text kind) (hrest : kind.EndsBefore rest) (hks : Lexes rest ks) :
    Lexes (text ++ rest) (kind :: ks) := by
  cases h with
  | ident valid => exact lexes_ident valid hrest hks
  | integer nonempty decimal inRange => exact lexes_digits nonempty decimal inRange hrest hks
  | string s => simpa using lexes_string s hks
  | punctuation single => exact lexes_punctuation single hks

/-- A token alone. -/
theorem lexes_spelled_alone (h : Spelled text kind) : Lexes text [kind] := by
  simpa using lexes_spelled h kind.endsBefore_nil lexes_nil

end Lexes

end PropertyExpr
