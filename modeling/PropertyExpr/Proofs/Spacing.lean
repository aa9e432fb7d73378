import PropertyExpr.Proofs.Reparsing
import PropertyExpr.Proofs.Spelling
/-!
# Tokens with blanks between them

`tokens_of_writing` — whatever tokens are written down, with any blanks around them, are read again, and an
expression does not depend on the blanks between its tokens. Only between two names, a name and an integer, or
two integers must there be a blank, since they would be one token without it.
-/
namespace PropertyExpr

namespace Token.Kind

/-- Whether there is a token of this kind: names must be identifiers, and the end of a block is not written. -/
def isWritable : Token.Kind → Bool
  | .ident name => isIdentifier name
  | .blockEnd => false
  | _ => true

/-- A token, with `zeros` zeros in front if it is an integer. -/
def spelling (zeros : Nat) : Token.Kind → List Char
  | .integer n => List.replicate zeros '0' ++ Nat.toDigits 10 n.toNat
  | .string s => '"' :: Expr.escape s.toList ++ ['"']
  | kind => kind.display.toList

/-- Whether the second token would go on with the first if there were no blank between them. -/
def mergesWith : Token.Kind → Token.Kind → Bool
  | .ident _, .ident _ => true
  | .ident _, .integer _ => true
  | .integer _, .integer _ => true
  | _, _ => false

end Token.Kind

/-- A token to be written. -/
structure Item where
  /-- The blanks before it. -/
  gap : List Char
  kind : Token.Kind
  /-- The zeros in front of the digits of an integer. -/
  zeros : Nat
  blank : ∀ c ∈ gap, Text.isBlank c
  writable : kind.isWritable

def Item.text (i : Item) : List Char := i.gap ++ i.kind.spelling i.zeros

/-- Blanks stand wherever two tokens would be one without them. -/
def Spaced : List Item → Prop
  | a :: b :: items => (a.kind.mergesWith b.kind → b.gap ≠ []) ∧ Spaced (b :: items)
  | _ => True

/-- Tokens with blanks between and around them. -/
structure Writing where
  items : List Item
  /-- The blanks behind the last token. -/
  last : List Char
  blank : ∀ c ∈ last, Text.isBlank c
  spaced : Spaced items

namespace Writing

def text (w : Writing) : List Char := w.items.flatMap Item.text ++ w.last

def kinds (w : Writing) : List Token.Kind := w.items.map Item.kind

end Writing

/-! ## What ends a token -/

section
variable {kind kind' : Token.Kind} {text : List Char} {c : Char} {cs : List Char}

/-- Only parts of identifiers are taken in. -/
theorem goesOnWith_of_not_isIdentifierPart (h : isIdentifierPart c = false) : kind.goesOnWith c = false := by
  have hdigit : c.isDigit = false :=
    Bool.eq_false_iff.2 fun hdigit => by simp [isIdentifierPart_of_isDigit hdigit] at h
  cases kind with
  | ident => exact h
  | integer => exact hdigit
  | _ => rfl

theorem goesOnWith_of_isBlank (h : Text.isBlank c) : kind.goesOnWith c = false :=
  goesOnWith_of_not_isIdentifierPart <| Bool.eq_false_iff.2 fun hpart => by
    rw [isBlank_of_isIdentifierPart hpart] at h
    cases h

/-- Only three pairs of tokens would merge. -/
theorem exists_cons_of_spelled (h : Spelled text kind') (hmerge : kind.mergesWith kind' = false) :
    ∃ c cs, text = c :: cs ∧ kind.goesOnWith c = false := by
  cases h with
  | ident valid =>
    obtain ⟨c, cs, hcs, hstart, -⟩ := exists_cons_of_isIdentifier valid
    have hdigit : c.isDigit = false :=
      Bool.eq_false_iff.2 fun hdigit => by simp [isIdentifierStart_of_isDigit hdigit] at hstart
    refine ⟨c, cs, hcs, ?_⟩
    cases kind with
    | ident => cases hmerge
    | integer => exact hdigit
    | _ => rfl
  | integer nonempty =>
    obtain ⟨c, cs, hcs⟩ := List.exists_cons_of_ne_nil nonempty
    refine ⟨c, cs, hcs, ?_⟩
    cases kind with
    | ident | integer => cases hmerge
    | _ => rfl
  | string s => exact ⟨_, _, rfl, goesOnWith_of_not_isIdentifierPart (by decide)⟩
  | @punctuation c _ single =>
    have hpart : isIdentifierPart c = false := by
      unfold Lexeme.punctuation? at single
      split at single <;> first | decide | cases single
    exact ⟨_, _, rfl, goesOnWith_of_not_isIdentifierPart hpart⟩

end

/-! ## Reading what was written -/

open Token.Kind (spelling) in
theorem spelled_spelling {kind : Token.Kind} (h : kind.isWritable) (zeros : Nat) :
    Spelled (kind.spelling zeros) kind := by
  cases kind with
  | integer n =>
    have hvalue : digitsValue (spelling zeros (.integer n)) = n.toNat := by
      rw [spelling, digitsValue_replicate_append, digitsValue_toDigits]
    have hdigits : ∀ c ∈ spelling zeros (.integer n), c.isDigit :=
      isDigit_of_mem_replicate_append isDigit_of_mem_toDigits
    have hne : spelling zeros (.integer n) ≠ [] := by simp [spelling, Nat.toDigits_ne_nil]
    have hspelled := Spelled.integer hne hdigits (by rw [hvalue]; exact n.toNat_lt)
    rwa [hvalue, UInt64.ofNat_toNat] at hspelled
  | string s => exact .string s
  | ident name => exact .ident h
  | blockEnd => cases h
  | _ => exact .punctuation rfl

theorem lexes_blanks {gap cs : List Char} {ks : List Token.Kind} (hgap : ∀ c ∈ gap, Text.isBlank c)
    (h : Lexes cs ks) : Lexes (gap ++ cs) ks := by
  induction gap with
  | nil => exact h
  | cons c gap ih =>
    exact lexes_blank (hgap c List.mem_cons_self) (ih fun c hc => hgap c (List.mem_cons_of_mem _ hc))

theorem endsBefore_blanks {kind : Token.Kind} {cs : List Char} (h : ∀ c ∈ cs, Text.isBlank c) : kind.EndsBefore cs :=
  fun c hc => goesOnWith_of_isBlank (h c (List.mem_of_mem_head? hc))

/-- A token ends where the next one, or the blanks before it, begin. -/
theorem endsBefore_item {kind : Token.Kind} {b : Item} (h : kind.mergesWith b.kind → b.gap ≠ []) (rest : List Char) :
    kind.EndsBefore (b.text ++ rest) := by
  rw [Item.text]
  cases hgap : b.gap with
  | nil =>
    have hmerge : kind.mergesWith b.kind = false := Bool.eq_false_iff.2 fun hmerge => h hmerge hgap
    obtain ⟨c, cs, hcs, hc⟩ := exists_cons_of_spelled (spelled_spelling b.writable b.zeros) hmerge
    rw [List.nil_append, hcs]
    exact Token.Kind.endsBefore_cons.2 hc
  | cons c gap => exact Token.Kind.endsBefore_cons.2 (goesOnWith_of_isBlank (b.blank c (by simp [hgap])))

/-- Items with blanks behind them are their tokens. -/
theorem lexes_items {items : List Item} {last : List Char} (hspaced : Spaced items)
    (hlast : ∀ c ∈ last, Text.isBlank c) :
    Lexes (items.flatMap Item.text ++ last) (items.map Item.kind) := by
  induction items with
  | nil => simpa using lexes_blanks hlast lexes_nil
  | cons a items ih =>
    have hlexes := ih (by cases items with | nil => trivial | cons => exact hspaced.2)
    have hends : a.kind.EndsBefore (items.flatMap Item.text ++ last) := by
      cases items with
      | nil => exact endsBefore_blanks hlast
      | cons b items =>
        rw [List.flatMap_cons, List.append_assoc]
        exact endsBefore_item hspaced.1 _
    rw [List.flatMap_cons, Item.text, List.append_assoc, List.append_assoc]
    exact lexes_blanks a.blank (lexes_spelled (spelled_spelling a.writable a.zeros) hends hlexes)

/-- What is written is read: its tokens are those that were to be written, whatever the blanks around them, and so
is the expression that they are. -/
theorem tokens_of_writing (w w' : Writing) (start start' : Location) :
    (Cursor.mk w.text start).tokens.map (List.map Token.kind) = .ok (w.kinds ++ [.blockEnd]) ∧
      (w.kinds = w'.kinds → ∀ e, Expr.parseAt ⟨w.text, start⟩ = .ok e ↔ Expr.parseAt ⟨w'.text, start'⟩ = .ok e) := by
  have hlexes (w : Writing) : Lexes w.text w.kinds := lexes_items w.spaced w.blank
  constructor
  · obtain ⟨ts, htokens, hrow⟩ := Cursor.tokens_of_lexes (hlexes w) ⟨w.text, start⟩ rfl
    rw [htokens, Except.map, hrow.map_kind]
  · intro hkinds e
    have hsame (ks : List Token.Kind) : Lexes w.text ks ↔ Lexes w'.text ks := by
      constructor
      · intro h
        rw [h.unique (hlexes w), hkinds]
        exact hlexes w'
      · intro h
        rw [h.unique (hlexes w'), ← hkinds]
        exact hlexes w
    simp only [Expr.parseAt_eq_ok_iff, hsame]

/-- A difference without blanks: `7-u[0].f`. -/
def tightDifference : Writing where
  items := [⟨[], .integer 7, 0, by simp, by decide⟩, ⟨[], .minus, 0, by simp, by decide⟩,
    ⟨[], .ident "u", 0, by simp, by decide⟩, ⟨[], .leftBracket, 0, by simp, by decide⟩,
    ⟨[], .integer 0, 0, by simp, by decide⟩, ⟨[], .rightBracket, 0, by simp, by decide⟩,
    ⟨[], .dot, 0, by simp, by decide⟩, ⟨[], .ident "f", 0, by simp, by decide⟩]
  last := []
  blank := by simp
  spaced := by simp [Spaced, Token.Kind.mergesWith]

/-- The same tokens with blanks, not all of them ASCII characters, and with zeros in front of the integers. -/
def looseDifference : Writing where
  items := [⟨[' '], .integer 7, 2, by simp; decide, by decide⟩, ⟨['\u3000'], .minus, 0, by simp; decide, by decide⟩,
    ⟨['\n', '\u0085'], .ident "u", 0, by simp; decide, by decide⟩, ⟨['\t'], .leftBracket, 0, by simp; decide, by decide⟩,
    ⟨[], .integer 0, 1, by simp, by decide⟩, ⟨[' '], .rightBracket, 0, by simp; decide, by decide⟩,
    ⟨[], .dot, 0, by simp, by decide⟩, ⟨[' '], .ident "f", 0, by simp; decide, by decide⟩]
  last := [' ']
  blank := by simp; decide
  spaced := by simp [Spaced, Token.Kind.mergesWith]

theorem tokens_of_writing_difference : looseDifference.kinds = tightDifference.kinds ∧
    (Cursor.ofText looseDifference.text).tokens.map (List.map Token.kind) =
      .ok [.integer 7, .minus, .ident "u", .leftBracket, .integer 0, .rightBracket, .dot, .ident "f", .blockEnd] ∧
    ∀ e, Expr.parse looseDifference.text = .ok e ↔ Expr.parse tightDifference.text = .ok e := by
  obtain ⟨htokens, hparse⟩ := tokens_of_writing looseDifference tightDifference .origin .origin
  exact ⟨rfl, htokens, hparse rfl⟩

end PropertyExpr
