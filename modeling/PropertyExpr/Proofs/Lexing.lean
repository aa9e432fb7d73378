import PropertyExpr.Expr.Printer
import PropertyExpr.Proofs.Digits
import PropertyExpr.Token.Cursor
/-!
# Which tokens a text has

`Lexes cs ks` leaves out the places of tokens: the text `cs` is made of the tokens `ks`, with blanks before and
behind them. `tokens_of_lexes` and `lexes_of_tokens` tie it to reading. Texts are built from the back: a lemma for
each kind of lexeme puts it before a text that does not go on with it.
-/
namespace PropertyExpr

/-- The text is made of tokens of these kinds. -/
inductive Lexes : List Char → List Token.Kind → Prop where
  | done {cs : List Char} (blank : cs.dropWhile Text.isBlank = []) : Lexes cs []
  | token {cs cs' : List Char} {c : Char} {kind : Token.Kind} {ks : List Token.Kind}
      (front : cs.dropWhile Text.isBlank = c :: cs') (read : (Lexeme.read c cs').outcome = .ok kind)
      (behind : Lexes (Lexeme.read c cs').rest ks) : Lexes cs (kind :: ks)

/-- A text has tokens in one way. -/
theorem Lexes.unique {cs : List Char} {ks ks' : List Token.Kind} (h : Lexes cs ks) (h' : Lexes cs ks') : ks = ks' := by
  induction h generalizing ks' with
  | done blank =>
    cases h' with
    | done => rfl
    | token front => cases blank.symm.trans front
  | token front read _ ih =>
    cases h' with
    | done blank => cases front.symm.trans blank
    | token front' read' behind' =>
      cases front.symm.trans front'
      cases read.symm.trans read'
      rw [ih behind']

/-! ## Reading -/

theorem Lexeme.punctuation?_ne_blockEnd {c : Char} {kind : Token.Kind} (h : punctuation? c = some kind) :
    kind ≠ .blockEnd := by
  unfold punctuation? at h
  split at h <;> simp_all <;> (subst h; simp)

/-- No lexeme is the end of the block. -/
theorem Lexeme.ne_blockEnd_of_read {c : Char} {cs : List Char} {kind : Token.Kind}
    (h : (read c cs).outcome = .ok kind) : kind ≠ .blockEnd := by
  unfold read at h
  split at h
  · obtain rfl := Except.ok.inj h
    simp
  split at h
  · simp only [integer] at h
    split at h
    · obtain rfl := Except.ok.inj h
      simp
    · cases h
  split at h
  · simp only [string] at h
    split at h
    · obtain rfl := Except.ok.inj h
      simp
    · cases h
    · cases h
  split at h
  · rename_i hk
    obtain rfl := Except.ok.inj h
    exact punctuation?_ne_blockEnd hk
  · cases h

theorem isIdentifierPart_of_isIdentifierStart {c : Char} (h : isIdentifierStart c) : isIdentifierPart c := by
  simp only [isIdentifierStart, isIdentifierPart, Char.isAlphanum, Bool.or_eq_true] at h ⊢
  rcases h with h | h
  · exact .inl (.inl h)
  · exact .inr h

theorem Lexeme.punctuation?_ne_ident {c : Char} {name : String} : punctuation? c ≠ some (.ident name) := by
  unfold punctuation?
  split <;> simp

/-- What is read as a name is an identifier. -/
theorem Lexeme.isIdentifier_of_read {c : Char} {cs : List Char} {name : String}
    (h : (read c cs).outcome = .ok (.ident name)) : isIdentifier name := by
  unfold read at h
  split at h
  · rename_i hc
    simp only [ident, List.takeWhile_cons_of_pos (isIdentifierPart_of_isIdentifierStart hc)] at h
    obtain rfl := Token.Kind.ident.inj (Except.ok.inj h)
    simp only [isIdentifier, String.toList_ofList, hc, Bool.true_and, List.all_takeWhile]
  split at h
  · simp only [integer] at h
    split at h <;> simp at h
  split at h
  · simp only [string] at h
    split at h <;> simp at h
  split at h
  · rename_i hk
    exact absurd hk (by rw [Except.ok.inj h]; exact punctuation?_ne_ident)
  · cases h

namespace Cursor

theorem next_of_blank {c : Cursor} (h : c.rest.dropWhile Text.isBlank = []) :
    c.next = (.ok ⟨.blockEnd, { c.skipBlanks.location with length := 0 }⟩, c.skipBlanks) := by
  have hrest : c.skipBlanks.rest = [] := h
  simp only [next, hrest]

theorem next_of_front {c : Cursor} {ch : Char} {cs : List Char} (h : c.rest.dropWhile Text.isBlank = ch :: cs) :
    c.next = (locate c.skipBlanks.location (Lexeme.read ch cs),
      c.skipBlanks.pass (Lexeme.read ch cs).text (Lexeme.read ch cs).rest) := by
  have hrest : c.skipBlanks.rest = ch :: cs := h
  simp only [next, hrest]

theorem tokens_of_error {c c' : Cursor} {e : SyntaxError} (h : c.next = (.error e, c')) : c.tokens = .error e := by
  rw [tokens]
  split
  · rename_i h'
    cases h.symm.trans h'
    rfl
  · rename_i h'
    cases h.symm.trans h'

theorem tokens_of_blockEnd {c c' : Cursor} {t : Token} (h : c.next = (.ok t, c')) (hk : t.kind = .blockEnd) :
    c.tokens = .ok [t] := by
  rw [tokens]
  split
  · rename_i h'
    cases h.symm.trans h'
  · rename_i h'
    cases h.symm.trans h'
    exact dif_pos hk

theorem tokens_of_token {c c' : Cursor} {t : Token} (h : c.next = (.ok t, c')) (hk : t.kind ≠ .blockEnd) :
    c.tokens = match c'.tokens with
      | .error e => .error e
      | .ok rest => .ok (t :: rest) := by
  rw [tokens]
  split
  · rename_i h'
    cases h.symm.trans h'
  · rename_i h'
    cases h.symm.trans h'
    exact dif_neg hk

/-- What is read is a row whose last token is its only end token. -/
def Row (ts : List Token) (ks : List Token.Kind) : Prop :=
  ∃ body last, ts = body ++ [last] ∧ body.map Token.kind = ks ∧ (∀ t ∈ body, t.kind ≠ .blockEnd) ∧
    last.kind = .blockEnd

theorem Row.cons {t : Token} {ts : List Token} {ks : List Token.Kind} (hk : t.kind ≠ .blockEnd) (h : Row ts ks) :
    Row (t :: ts) (t.kind :: ks) := by
  obtain ⟨body, last, rfl, rfl, hbody, hlast⟩ := h
  refine ⟨t :: body, last, rfl, rfl, ?_, hlast⟩
  rintro u (_ | ⟨_, hu⟩)
  · exact hk
  · exact hbody u hu

theorem Row.map_kind {ts : List Token} {ks : List Token.Kind} (h : Row ts ks) :
    ts.map Token.kind = ks ++ [.blockEnd] := by
  obtain ⟨body, last, rfl, rfl, -, hlast⟩ := h
  rw [List.map_append, List.map_singleton, hlast]

theorem tokens_of_lexes {cs : List Char} {ks : List Token.Kind} (h : Lexes cs ks) (c : Cursor) (hc : c.rest = cs) :
    ∃ ts, c.tokens = .ok ts ∧ Row ts ks := by
  induction h generalizing c with
  | done blank =>
    subst hc
    exact ⟨_, tokens_of_blockEnd (next_of_blank blank) rfl, [], _, rfl, rfl, by simp, rfl⟩
  | @token _ cs ch kind ks front read _ ih =>
    subst hc
    have hnext := next_of_front front
    rw [locate, read] at hnext
    obtain ⟨ts, htokens, hrow⟩ := ih (c.skipBlanks.pass (Lexeme.read ch cs).text (Lexeme.read ch cs).rest) rfl
    have hk := Lexeme.ne_blockEnd_of_read read
    have htokens' := tokens_of_token hnext hk
    rw [htokens] at htokens'
    exact ⟨_, htokens', hrow.cons hk⟩

theorem lexes_of_tokens (c : Cursor) (ts : List Token) (h : c.tokens = .ok ts) :
    ∃ ks, Lexes c.rest ks ∧ Row ts ks := by
  cases hfront : c.rest.dropWhile Text.isBlank with
  | nil =>
    rw [tokens_of_blockEnd (next_of_blank hfront) rfl] at h
    obtain rfl := Except.ok.inj h
    exact ⟨[], .done hfront, [], _, rfl, rfl, by simp, rfl⟩
  | cons ch cs =>
    have hnext := next_of_front hfront
    cases hread : (Lexeme.read ch cs).outcome with
    | error fault =>
      rw [locate, hread] at hnext
      cases (tokens_of_error hnext).symm.trans h
    | ok kind =>
      rw [locate, hread] at hnext
      have hk := Lexeme.ne_blockEnd_of_read hread
      have hlt := rest_next_lt hnext hk
      rw [tokens_of_token hnext hk] at h
      cases htokens : (c.skipBlanks.pass (Lexeme.read ch cs).text (Lexeme.read ch cs).rest).tokens with
      | error e =>
        rw [htokens] at h
        cases h
      | ok ts' =>
        rw [htokens] at h
        obtain rfl := Except.ok.inj h
        obtain ⟨ks, hlexes, hrow⟩ := lexes_of_tokens _ ts' htokens
        exact ⟨_, .token hfront hread hlexes, hrow.cons hk⟩
termination_by c.rest.length

end Cursor

/-! ## Lexemes before a text -/

section
variable {cs rest : List Char} {ks : List Token.Kind}

/-- The text does not go on with an identifier or an integer. -/
def BreaksOff (cs : List Char) : Prop := ∀ c, cs.head? = some c → isIdentifierPart c = false

theorem lexes_nil : Lexes [] [] := .done rfl

theorem lexes_blank {c : Char} (hc : Text.isBlank c) (h : Lexes cs ks) : Lexes (c :: cs) ks := by
  have hdrop : (c :: cs).dropWhile Text.isBlank = cs.dropWhile Text.isBlank := List.dropWhile_cons_of_pos hc
  cases h with
  | done blank => exact .done (hdrop.trans blank)
  | token front read behind => exact .token (hdrop.trans front) read behind

/-- A lexeme is read before whatever it leaves. -/
theorem lexes_read {c : Char} {text : List Char} {kind : Token.Kind} (hc : Text.isBlank c = false)
    (read : Lexeme.read c cs = ⟨text, .ok kind, rest⟩) (h : Lexes rest ks) : Lexes (c :: cs) (kind :: ks) :=
  .token (List.dropWhile_cons_of_neg (by simp [hc])) (by rw [read]) (by rwa [read])

theorem isIdentifierPart_of_isDigit {c : Char} (h : c.isDigit) : isIdentifierPart c := by
  simp [isIdentifierPart, Char.isAlphanum, h]

/-- What ends an identifier ends an integer as well. -/
theorem BreaksOff.takeWhile {p : Char → Bool} (h : BreaksOff rest) (hp : ∀ c, p c → isIdentifierPart c) :
    rest.takeWhile p = [] ∧ rest.dropWhile p = rest := by
  cases rest with
  | nil => exact ⟨rfl, rfl⟩
  | cons c cs =>
    have hc : ¬ p c := fun hc => by simpa [h c rfl] using hp c hc
    exact ⟨List.takeWhile_cons_of_neg hc, List.dropWhile_cons_of_neg hc⟩

theorem isAlpha_iff {c : Char} :
    c.isAlpha ↔ (65 ≤ c.toNat ∧ c.toNat ≤ 90) ∨ (97 ≤ c.toNat ∧ c.toNat ≤ 122) := by
  have hupper : c.isUpper ↔ 65 ≤ c.toNat ∧ c.toNat ≤ 90 := decide_eq_true_iff
  have hlower : c.isLower ↔ 97 ≤ c.toNat ∧ c.toNat ≤ 122 :=
    Bool.and_eq_true_iff.trans (and_congr decide_eq_true_iff decide_eq_true_iff)
  exact Bool.or_eq_true_iff.trans (or_congr hupper hlower)

/-- The code points of the characters in names. -/
theorem toNat_of_isIdentifierPart {c : Char} (h : isIdentifierPart c) :
    (48 ≤ c.toNat ∧ c.toNat ≤ 57) ∨ (65 ≤ c.toNat ∧ c.toNat ≤ 90) ∨ (97 ≤ c.toNat ∧ c.toNat ≤ 122) ∨
      c.toNat = 95 := by
  simp only [isIdentifierPart, Char.isAlphanum, Bool.or_eq_true, decide_eq_true_eq, isAlpha_iff,
    Char.isDigit_iff_toNat] at h
  rcases h with ((h | h) | h) | rfl
  · exact .inr (.inl h)
  · exact .inr (.inr (.inl h))
  · exact .inl h
  · exact .inr (.inr (.inr rfl))

/-- No identifier or integer starts with a blank. -/
theorem isBlank_of_isIdentifierPart {c : Char} (h : isIdentifierPart c) : Text.isBlank c = false := by
  have hc := toNat_of_isIdentifierPart h
  simp only [Text.isBlank, Text.blankRanges, List.any_cons, List.any_nil, Bool.or_false, Bool.or_eq_false_iff,
    Bool.and_eq_false_iff, decide_eq_false_iff_not]
  omega

theorem isIdentifierStart_of_isDigit {c : Char} (h : c.isDigit) : isIdentifierStart c = false := by
  have hc : c.toNat ≤ 57 := (Char.isDigit_iff_toNat.1 h).2
  refine Bool.eq_false_iff.2 fun hstart => ?_
  simp only [isIdentifierStart, Bool.or_eq_true, decide_eq_true_eq, isAlpha_iff] at hstart
  rcases hstart with (hupper | hlower) | rfl
  · omega
  · omega
  · exact absurd hc (by decide)

/-- An identifier has a first character, and goes on as one. -/
theorem exists_cons_of_isIdentifier {name : String} (h : isIdentifier name) :
    ∃ c cs, name.toList = c :: cs ∧ isIdentifierStart c ∧ ∀ a ∈ c :: cs, isIdentifierPart a := by
  unfold isIdentifier at h
  split at h
  · cases h
  rename_i c cs hcs
  simp only [Bool.and_eq_true, List.all_eq_true] at h
  exact ⟨c, cs, hcs, h.1, List.forall_mem_cons.2 ⟨isIdentifierPart_of_isIdentifierStart h.1, h.2⟩⟩

theorem lexes_ident {name : String} (hname : isIdentifier name) (hrest : BreaksOff rest) (h : Lexes rest ks) :
    Lexes (name.toList ++ rest) (.ident name :: ks) := by
  obtain ⟨c, cs, hcs, hstart, hparts⟩ := exists_cons_of_isIdentifier hname
  obtain ⟨htake, hdrop⟩ := hrest.takeWhile fun _ => id
  have hread : Lexeme.read c (cs ++ rest) = ⟨c :: cs, .ok (.ident name), rest⟩ := by
    rw [Lexeme.read, if_pos hstart, Lexeme.ident, ← List.cons_append, List.takeWhile_append_of_pos hparts,
      List.dropWhile_append_of_pos hparts, htake, hdrop, List.append_nil, ← hcs, String.ofList_toList]
  rw [hcs]
  exact lexes_read (isBlank_of_isIdentifierPart (hparts c (by simp))) hread h

theorem lexes_digits {digits : List Char} (hne : digits ≠ []) (hdigits : ∀ c ∈ digits, c.isDigit)
    (hsize : digitsValue digits < UInt64.size) (hrest : ∀ c, rest.head? = some c → c.isDigit = false)
    (h : Lexes rest ks) : Lexes (digits ++ rest) (.integer (UInt64.ofNat (digitsValue digits)) :: ks) := by
  obtain ⟨htake, hdrop⟩ := span_digits hdigits hrest
  obtain ⟨c, cs, rfl⟩ := List.exists_cons_of_ne_nil hne
  have hc : c.isDigit := hdigits c List.mem_cons_self
  have hread : Lexeme.read c (cs ++ rest) =
      ⟨c :: cs, .ok (.integer (UInt64.ofNat (digitsValue (c :: cs)))), rest⟩ := by
    rw [Lexeme.read, if_neg (by simp [isIdentifierStart_of_isDigit hc]), if_pos hc, Lexeme.integer,
      ← List.cons_append, htake, hdrop]
    simp only [if_pos hsize]
  exact lexes_read (isBlank_of_isIdentifierPart (isIdentifierPart_of_isDigit hc)) hread h

theorem BreaksOff.isDigit_eq_false (h : BreaksOff rest) (c : Char) (hc : rest.head? = some c) : c.isDigit = false :=
  Bool.eq_false_iff.2 fun hdigit => by simpa [h c hc] using isIdentifierPart_of_isDigit hdigit

theorem lexes_integer {n : Nat} (hn : n < UInt64.size) (hrest : BreaksOff rest) (h : Lexes rest ks) :
    Lexes (Nat.toDigits 10 n ++ rest) (.integer (UInt64.ofNat n) :: ks) := by
  have hvalue := digitsValue_toDigits n
  have hlexes := lexes_digits Nat.toDigits_ne_nil isDigit_of_mem_toDigits (by rwa [hvalue]) hrest.isDigit_eq_false h
  rwa [hvalue] at hlexes

/-- Escaping is undone. -/
theorem stringBody_escape (cs rest : List Char) : Lexeme.stringBody (Expr.escape cs ++ '"' :: rest) =
    ⟨cs, Expr.escape cs ++ ['"'], .closed, rest⟩ := by
  induction cs with
  | nil => rfl
  | cons c cs ih =>
    rw [Expr.escape]
    split
    · rename_i hc
      simp only [List.cons_append]
      rw [Lexeme.stringBody, if_pos hc, ih]
      rfl
    · rename_i hc
      simp only [not_or] at hc
      rw [List.cons_append, Lexeme.stringBody, ih]
      · rfl
      · exact hc.2
      · exact fun h _ => hc.1 h
      · exact fun _ _ h _ => hc.1 h

theorem lexes_string (s : String) (h : Lexes rest ks) :
    Lexes ('"' :: (Expr.escape s.toList ++ '"' :: rest)) (.string s :: ks) := by
  have hread : Lexeme.read '"' (Expr.escape s.toList ++ '"' :: rest) =
      ⟨'"' :: (Expr.escape s.toList ++ ['"']), .ok (.string s), rest⟩ := by
    rw [Lexeme.read, if_neg (by decide), if_neg (by decide), if_pos rfl, Lexeme.string, stringBody_escape]
    simp only [String.ofList_toList]
  exact lexes_read (by decide) hread h

/-- A token of one character. -/
theorem lexes_punctuation {c : Char} {kind : Token.Kind} (hc : Lexeme.punctuation? c = some kind) (h : Lexes rest ks) :
    Lexes (c :: rest) (kind :: ks) := by
  have hplain : Text.isBlank c = false ∧ isIdentifierStart c = false ∧ c.isDigit = false ∧ c ≠ '"' := by
    unfold Lexeme.punctuation? at hc
    split at hc <;> first | decide | simp at hc
  have hread : Lexeme.read c rest = ⟨[c], .ok kind, rest⟩ := by
    rw [Lexeme.read, if_neg (by simp [hplain]), if_neg (by simp [hplain]), if_neg hplain.2.2.2]
    simp only [hc]
  exact lexes_read hplain.1 hread h

end

end PropertyExpr
