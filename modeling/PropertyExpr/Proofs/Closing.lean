import PropertyExpr.Proofs.Composition
import PropertyExpr.Proofs.Spelling
/-!
# Where blocks and string literals end

`block_ends_agree` — what closes a block and what closes a string literal is looked for twice, first for the ends of
blocks and then for the tokens inside of them, and both ways agree. A text of tokens is `Clean`: whatever its string
literals hold, the braces that close a block are looked for behind it (`clean_of_lexes`). A string literal that is
left open hides the braces behind it (`hidesClosing_of_tokens`), so no block ends there.

The two are followed together as far as there are tokens. Behind a fault nothing is claimed: an escape that is not
recognized is passed over when the end of a block is looked for.
-/
namespace PropertyExpr

namespace Piece

/-! ## Texts that close nothing -/

/-- Whatever stands behind the text, the first closing braces outside of string literals are in what stands
behind. -/
def Clean (text : List Char) : Prop :=
  ∀ rest inner behind, breakAtClosing? false rest = some (inner, behind) →
    breakAtClosing? false (text ++ rest) = some (text ++ inner, behind)

theorem Clean.append {a b : List Char} (ha : Clean a) (hb : Clean b) : Clean (a ++ b) := by
  intro rest inner behind h
  rw [List.append_assoc, List.append_assoc]
  exact ha _ _ _ (hb _ _ _ h)

theorem Clean.encloses {text : List Char} (h : Clean text) : Encloses text := by
  have hclose : breakAtClosing? false (text ++ closeBraces) = some (text ++ [], []) := h closeBraces [] [] rfl
  rwa [List.append_nil] at hclose

theorem exists_cons_of_breakAtClosing? {inString : Bool} {cs : List Char} {p : List Char × List Char}
    (h : breakAtClosing? inString cs = some p) : ∃ d ds, cs = d :: ds := by
  cases cs with
  | nil => cases h
  | cons d ds => exact ⟨d, ds, rfl⟩

theorem clean_plain {text : List Char} (h : ∀ c ∈ text, c ≠ '"' ∧ c ≠ '\x7d') : Clean text := by
  induction text with
  | nil =>
    intro rest inner behind h
    exact h
  | cons c text ih =>
    intro rest inner behind hrest
    obtain ⟨hquote, hbrace⟩ := h c (by simp)
    have hnext := ih (fun a ha => h a (List.mem_cons_of_mem _ ha)) rest inner behind hrest
    obtain ⟨d, ds, hds⟩ := exists_cons_of_breakAtClosing? hnext
    rw [List.cons_append, hds, breakAtClosing?, ← hds, hnext]
    · simp [hbrace]
    · exact hquote

/-- In a string literal the quotes that are part of it are hidden. -/
theorem breakAtClosing?_escape (cs : List Char) {rest inner behind : List Char}
    (h : breakAtClosing? false rest = some (inner, behind)) :
    breakAtClosing? true (Expr.escape cs ++ '"' :: rest) = some (Expr.escape cs ++ '"' :: inner, behind) := by
  induction cs with
  | nil =>
    rw [Expr.escape, List.nil_append, breakAtClosing?, Bool.not_true, h]
    rfl
  | cons c cs ih =>
    rw [Expr.escape]
    split
    · -- the backslash hides the character behind it
      rw [List.cons_append, List.cons_append, breakAtClosing?, if_pos (by decide), ih]
      · rfl
      · decide
    · rename_i hc
      rw [not_or] at hc
      obtain ⟨d, ds, hds⟩ := exists_cons_of_breakAtClosing? ih
      rw [List.cons_append, hds, breakAtClosing?, ← hds, ih]
      · simp [hc.1]
      · exact hc.2

theorem clean_literal (cs : List Char) : Clean ('"' :: Expr.escape cs ++ ['"']) := by
  intro rest inner behind h
  rw [List.cons_append, List.cons_append, List.append_assoc, List.singleton_append, breakAtClosing?, Bool.not_false,
    breakAtClosing?_escape cs h]
  simp

end Piece

namespace Lexeme

open Piece (Clean clean_plain clean_literal)

/-! ## Lexemes close nothing -/

theorem unclosing_of_isIdentifierPart {c : Char} (h : isIdentifierPart c) : c ≠ '"' ∧ c ≠ '\x7d' := by
  constructor <;> (rintro rfl; exact absurd h (by decide))

theorem clean_of_spelled {text : List Char} {kind : Token.Kind} (h : Spelled text kind) : Clean text := by
  cases h with
  | ident valid =>
    obtain ⟨c, cs, hcs, -, hparts⟩ := exists_cons_of_isIdentifier valid
    rw [hcs]
    exact clean_plain fun a ha => unclosing_of_isIdentifierPart (hparts a ha)
  | integer nonempty decimal inRange =>
    exact clean_plain fun a ha => unclosing_of_isIdentifierPart (isIdentifierPart_of_isDigit (decimal a ha))
  | string s => exact clean_literal s.toList
  | punctuation single =>
    apply clean_plain
    intro a ha
    obtain rfl := List.mem_singleton.1 ha
    constructor <;> (rintro rfl; cases single)

theorem clean_of_read {c : Char} {cs : List Char} {kind : Token.Kind} (h : (read c cs).outcome = .ok kind) :
    Clean (read c cs).text :=
  clean_of_spelled (spelled_of_read h).1

end Lexeme

/-! ## Tokens close nothing -/

namespace Piece

theorem clean_takeWhile_isBlank (cs : List Char) : Clean (cs.takeWhile Text.isBlank) := by
  apply clean_plain
  intro c hc
  have hblank := List.all_eq_true.1 List.all_takeWhile c hc
  constructor <;> (rintro rfl; exact absurd hblank (by decide))

/-- Blanks and the token behind them. -/
theorem exists_clean_front {cs cs' : List Char} {c : Char} {kind : Token.Kind}
    (front : cs.dropWhile Text.isBlank = c :: cs') (read : (Lexeme.read c cs').outcome = .ok kind) :
    ∃ text, cs = text ++ (Lexeme.read c cs').rest ∧ Clean text := by
  refine ⟨_, ?_, (clean_takeWhile_isBlank cs).append (Lexeme.clean_of_read read)⟩
  rw [List.append_assoc, Lexeme.text_append_rest, ← front, List.takeWhile_append_dropWhile]

/-- **A text of tokens is clean**, whatever quotes and braces its string literals hold. -/
theorem clean_of_lexes {cs : List Char} {ks : List Token.Kind} (h : Lexes cs ks) : Clean cs := by
  induction h with
  | @done cs blank =>
    rw [← List.takeWhile_append_dropWhile (p := Text.isBlank) (l := cs), blank, List.append_nil]
    exact clean_takeWhile_isBlank cs
  | token front read _ ih =>
    obtain ⟨text, rfl, hclean⟩ := exists_clean_front front read
    exact hclean.append ih

/-! ## String literals that are left open -/

/-- The text ends inside of a string literal: closing braces behind it do not count, up to the next quote. -/
def HidesClosing (text : List Char) : Prop :=
  breakAtClosing? false (text ++ (closeBraces ++ '"' :: closeBraces)) = some (text ++ (closeBraces ++ ['"']), [])

theorem HidesClosing.append {a b : List Char} (hb : HidesClosing b) (ha : Clean a) : HidesClosing (a ++ b) := by
  rw [HidesClosing, List.append_assoc, List.append_assoc]
  exact ha _ _ _ hb

/-- Where a block ends there is no string literal open. -/
theorem HidesClosing.not_encloses {text : List Char} (h : HidesClosing text) : ¬ Encloses text := by
  intro hencloses
  have hclosing := hencloses.breakAtClosing? ('"' :: closeBraces)
  have hlength := congrArg (fun p => (p.getD ([], [])).1.length) (h.symm.trans hclosing)
  simp [closeBraces] at hlength

theorem hidesClosing_literal {cs : List Char} (h : (Lexeme.stringBody cs).ending = .unterminated) :
    HidesClosing ('"' :: cs) := by
  have hinside : breakAtClosing? true (cs ++ (closeBraces ++ '"' :: closeBraces)) =
      some (cs ++ (closeBraces ++ ['"']), []) := by
    fun_induction Lexeme.stringBody cs with
    | case1 => rfl
    | case2 cs => cases h
    | case3 => rfl
    | case4 c cs hc ih =>
      rw [List.cons_append, List.cons_append, breakAtClosing?, if_pos (by decide), ih h]
      · rfl
      · decide
    | case5 c cs hc => cases h
    | case6 c cs hquote hend hescape ih =>
      obtain ⟨d, ds, hds⟩ := exists_cons_of_breakAtClosing? (ih h)
      have hc : c ≠ '\\' := by
        rintro rfl
        cases cs with
        | nil => exact hend rfl rfl
        | cons e cs => exact hescape e cs rfl rfl
      rw [List.cons_append, hds, breakAtClosing?, ← hds, ih h]
      · simp [hc]
      · exact hquote
  rw [HidesClosing, List.cons_append, breakAtClosing?, Bool.not_false, hinside]
  rfl

theorem hidesClosing_of_read {c : Char} {cs : List Char} {fault : Lexeme.Fault}
    (h : (Lexeme.read c cs).outcome = .error fault) (hcause : fault.cause = .unterminatedString) :
    HidesClosing (c :: cs) := by
  unfold Lexeme.read at h
  split at h
  · cases h
  split at h
  · simp only [Lexeme.integer] at h
    split at h
    · cases h
    · cases h
      cases hcause
  split at h
  · rename_i hquote
    rw [hquote]
    apply hidesClosing_literal
    cases hending : (Lexeme.stringBody cs).ending <;> simp only [Lexeme.string, hending] at h
    · cases h
    · rfl
    · cases h
      cases hcause
  split at h
  · cases h
  · cases h
    cases hcause

/-- Reading one token passes over a text that closes nothing. -/
theorem exists_clean_of_next {c c' : Cursor} {t : Token} (h : c.next = (.ok t, c')) (hk : t.kind ≠ .blockEnd) :
    ∃ text, c.rest = text ++ c'.rest ∧ Clean text := by
  cases hfront : c.rest.dropWhile Text.isBlank with
  | nil =>
    rw [Cursor.next_of_blank hfront] at h
    cases h
    exact absurd rfl hk
  | cons ch cs =>
    rw [Cursor.next_of_front hfront] at h
    cases hread : (Lexeme.read ch cs).outcome with
    | error fault =>
      rw [Cursor.locate, hread] at h
      cases h
    | ok kind =>
      obtain ⟨_, rfl⟩ := Prod.mk.inj h
      exact exists_clean_front hfront hread

theorem hidesClosing_of_next {c c' : Cursor} {e : SyntaxError} (h : c.next = (.error e, c'))
    (hcause : e.cause = .unterminatedString) : HidesClosing c.rest := by
  cases hfront : c.rest.dropWhile Text.isBlank with
  | nil =>
    rw [Cursor.next_of_blank hfront] at h
    cases h
  | cons ch cs =>
    rw [Cursor.next_of_front hfront, Cursor.locate] at h
    cases hread : (Lexeme.read ch cs).outcome with
    | ok kind =>
      rw [hread] at h
      cases h
    | error fault =>
      rw [hread] at h
      cases h
      have hopen := hidesClosing_of_read hread hcause
      rw [← List.takeWhile_append_dropWhile (p := Text.isBlank) (l := c.rest), hfront]
      exact hopen.append (clean_takeWhile_isBlank c.rest)

/-- **A text with a string literal that is not closed**, when it is the first fault, hides the braces behind it. -/
theorem hidesClosing_of_tokens (c : Cursor) {e : SyntaxError} (h : c.tokens = .error e)
    (hcause : e.cause = .unterminatedString) : HidesClosing c.rest := by
  fun_induction Cursor.tokens c with
  | case1 c e' c' hnext =>
    cases h
    exact hidesClosing_of_next hnext hcause
  | case2 => cases h
  | case3 c t c' hnext hk e' htokens ih =>
    cases h
    obtain ⟨text, hrest, hclean⟩ := exists_clean_of_next hnext hk
    rw [hrest]
    exact (ih htokens).append hclean
  | case4 => cases h

/-! ## Blocks of a template -/

theorem not_mem_textAt {start start' : Nat} {cs inner : List Char} : .block start' inner ∉ textAt start cs := by
  cases cs with
  | nil => exact List.not_mem_nil
  | cons c cs => simp [textAt]

theorem encloses_of_mem_piecesFrom {start start' : Nat} {tail inner : List Char} {stretches : List Stretch}
    (h : .block start' inner ∈ Layout.piecesFrom start tail stretches) : Encloses inner := by
  induction stretches generalizing start with
  | nil => exact absurd h not_mem_textAt
  | cons s stretches ih =>
    simp only [Layout.piecesFrom, Stretch.pieces, List.mem_append, List.mem_singleton] at h
    rcases h with (h | h) | h
    · exact absurd h not_mem_textAt
    · obtain ⟨_, rfl⟩ := Piece.block.inj h
      exact s.encloses
    · exact ih h

/-- The closing braces of a block are the first two outside of string literals. -/
theorem encloses_of_mem_split {source inner : List Char} {start : Nat} (h : .block start inner ∈ split source) :
    Encloses inner := by
  obtain ⟨l, rfl⟩ := exists_layout source
  rw [l.split_source] at h
  exact encloses_of_mem_piecesFrom h

/-- The range between the braces of a block holds its inside. -/
theorem slice_innerRange {source inner : List Char} {start : Nat} (h : .block start inner ∈ split source) :
    Text.slice source (block start inner).innerRange.1 (block start inner).innerRange.2 = inner := by
  obtain ⟨pre, post, hsource, hstart⟩ := Template.exists_place_of_mem [] (contiguous_split source) h
  have hopen : start + 2 = Text.byteLength (pre ++ openBraces) := by
    rw [Text.byteLength_append, ← hstart]
    rfl
  have hsource : source = (pre ++ openBraces) ++ (inner ++ (closeBraces ++ post)) := by
    rw [← flatMap_source_split source, ← List.nil_append (List.flatMap _ _), hsource]
    simp only [Piece.source, List.append_assoc]
  rw [innerRange, hopen, hsource, Text.slice_append]

/-- **Blocks end where their tokens do.** Between the braces of a block, reading tokens never comes to a string
literal that is not closed; and a text that can be read as tokens, put between braces, is the first block of a template
that starts with it. -/
theorem block_ends_agree :
    (∀ source, ∀ b ∈ Template.blocks source, ∀ location e,
      (⟨Text.slice source b.innerRange.1 b.innerRange.2, location⟩ : Cursor).tokens = .error e →
        e.cause ≠ .unterminatedString) ∧
    (∀ text location tokens rest, (⟨text, location⟩ : Cursor).tokens = .ok tokens →
      (split (openBraces ++ text ++ closeBraces ++ rest)).head? = some (.block 0 text)) := by
  constructor
  · intro source b hb location e htokens hcause
    obtain ⟨hmem, hblock⟩ := List.mem_filter.1 hb
    cases b with
    | text start content => cases hblock
    | block start inner =>
      rw [slice_innerRange hmem] at htokens
      exact (hidesClosing_of_tokens _ htokens hcause).not_encloses (encloses_of_mem_split hmem)
  · intro text location tokens rest htokens
    obtain ⟨ks, hlexes, -⟩ := Cursor.lexes_of_tokens _ tokens htokens
    have hencloses : Encloses text := (clean_of_lexes hlexes).encloses
    have hsource : openBraces ++ text ++ closeBraces ++ rest =
        [] ++ (openBraces ++ (text ++ (closeBraces ++ rest))) := by
      simp only [List.append_assoc, List.nil_append]
    rw [split, hsource, splitAt_block (by decide) hencloses]
    rfl

/-- Braces and a quote in a string literal do not end a block. -/
theorem split_literalWithBraces :
    (split "\x7b\x7b\"\x7d\x7d\\\"\" + 1\x7d\x7d\x7d".toList).head? = some (.block 0 "\"\x7d\x7d\\\"\" + 1".toList) := by
  have hlexes : Lexes "\"\x7d\x7d\\\"\" + 1".toList [.string "\x7d\x7d\"", .plus, .integer 1] :=
    lexes_string "\x7d\x7d\"" (lexes_blank (by decide) (lexes_punctuation rfl (lexes_blank (by decide)
      (lexes_integer (n := 1) (by decide) (by simp [BreaksOff]) lexes_nil))))
  obtain ⟨tokens, htokens, -⟩ := Cursor.tokens_of_lexes hlexes ⟨_, .origin⟩ rfl
  exact block_ends_agree.2 _ _ tokens ['\x7d'] htokens

end Piece

end PropertyExpr
