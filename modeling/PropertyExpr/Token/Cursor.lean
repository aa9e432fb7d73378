import PropertyExpr.Text.Blank
import PropertyExpr.Token.Lexeme
/-!
# Reading tokens: `lexer::Lexer`

A cursor is what is left of a block together with the place where it starts. `Cursor.next` skips blanks and
reads one token; after a fault the cursor stands behind what was read, so reading can go on. `Cursor.tokens`
reads up to the end of the block; it ends because every other token has a character (`rest_next_lt`).
-/
namespace PropertyExpr

structure Cursor where
  rest : List Char
  location : Location

namespace Cursor

/-- A cursor over the bytes `start` to `stop` of `source` (`Lexer::for_block`). -/
def ofRange (source : List Char) (start stop : Nat) : Cursor :=
  ⟨Text.slice source start stop, Location.atOffset source start 0⟩

/-- A cursor over the bytes `start` to `stop` of `source`, of which the first has the line and column of `place`
(`Lexer::for_block_at`). -/
def ofRangeAt (source : List Char) (start stop : Nat) (place : Location) : Cursor :=
  ⟨Text.slice source start stop, { place with offset := start, length := 0 }⟩

/-- A cursor over the whole of `source` (`Lexer::new`). -/
def ofText (source : List Char) : Cursor := ⟨source, Location.origin⟩

/-- The cursor behind `text`, with `rest` left (`Lexer::advance`, once for each character). -/
def pass (c : Cursor) (text rest : List Char) : Cursor :=
  ⟨rest, text.foldl Location.step c.location⟩

/-- The cursor behind the blanks at its front (`Lexer::skip_whitespace`). -/
def skipBlanks (c : Cursor) : Cursor :=
  c.pass (c.rest.takeWhile Text.isBlank) (c.rest.dropWhile Text.isBlank)

/-- The token or fault of `lexeme`, which starts at `start` (`Lexer::make_token`). -/
def locate (start : Location) (lexeme : Lexeme) : Except SyntaxError Token :=
  match lexeme.outcome with
  | .ok kind => .ok ⟨kind, { start with length := Text.byteLength lexeme.text }⟩
  | .error fault => .error ⟨fault.cause, start.offset + fault.skipped, fault.length⟩

/-- Reads one token (`Lexer::next_token`). At the end of the block that is an empty end token, as often as it is asked
for. -/
def next (c : Cursor) : Except SyntaxError Token × Cursor :=
  let c := c.skipBlanks
  match c.rest with
  | [] => (.ok ⟨.blockEnd, { c.location with length := 0 }⟩, c)
  | ch :: cs =>
    let lexeme := Lexeme.read ch cs
    (locate c.location lexeme, c.pass lexeme.text lexeme.rest)

theorem length_rest_skipBlanks_le (c : Cursor) : c.skipBlanks.rest.length ≤ c.rest.length :=
  (List.dropWhile_sublist _).length_le

/-- A token other than the end of the block takes characters off the cursor. -/
theorem rest_next_lt {c : Cursor} {token : Token} {c' : Cursor} (h : c.next = (.ok token, c'))
    (hk : token.kind ≠ .blockEnd) : c'.rest.length < c.rest.length := by
  have hle := c.length_rest_skipBlanks_le
  unfold next at h
  simp only at h
  split at h
  · cases h; exact absurd rfl hk
  · rename_i ch cs hrest
    obtain ⟨hloc, rfl⟩ := Prod.mk.inj h
    cases ho : (Lexeme.read ch cs).outcome with
    | error fault => simp [locate, ho] at hloc
    | ok kind =>
      have hne := Lexeme.text_ne_nil ho
      have happ := congrArg List.length (Lexeme.text_append_rest ch cs)
      have := List.length_pos_iff.mpr hne
      simp only [List.length_append, List.length_cons] at happ
      simp only [hrest, List.length_cons] at hle
      simp only [pass]
      omega

/-- All tokens up to the end of the block, or the first fault (`Lexer::tokenize`). -/
def tokens (c : Cursor) : Except SyntaxError (List Token) :=
  match _h : c.next with
  | (.error e, _) => .error e
  | (.ok token, c') =>
    if _hk : token.kind = .blockEnd then .ok [token]
    else
      match tokens c' with
      | .error e => .error e
      | .ok rest => .ok (token :: rest)
termination_by c.rest.length
decreasing_by exact rest_next_lt _h _hk

end Cursor

end PropertyExpr
