import Mathlib
import PropertyExpr.Proofs.Relocation
/-!
# Ranges of a source

`parseRange_eq_parse_slice` — what a range of bytes is parsed as is settled by the characters in it. Neither the text
around the range nor the line and column that its start is said to have make a difference: the tree is that of the
characters alone, and an error is theirs, moved to where they lie.

A range is cut at boundaries between characters; `exists_range` takes a source apart there.
-/
namespace PropertyExpr

namespace Text

/-! ## Boundaries -/

/-- Whether byte `n` of `cs` lies between two characters, or at an end of the text. -/
def isBoundary : (cs : List Char) → (n : Nat) → Bool
  | _, 0 => true
  | [], _ + 1 => false
  | c :: cs, n + 1 => c.utf8Size ≤ n + 1 && isBoundary cs (n + 1 - c.utf8Size)

theorem isBoundary_append (pre post : List Char) : isBoundary (pre ++ post) (byteLength pre) := by
  induction pre with
  | nil => cases post <;> rfl
  | cons c pre ih =>
    have hc := c.utf8Size_pos
    obtain ⟨n, hn⟩ : ∃ n, c.utf8Size + byteLength pre = n + 1 := ⟨c.utf8Size + byteLength pre - 1, by omega⟩
    have hrest : n + 1 - c.utf8Size = byteLength pre := by omega
    rw [byteLength_cons, hn, List.cons_append, isBoundary, hrest, ih, Bool.and_true]
    exact decide_eq_true (by omega)

theorem exists_append_of_isBoundary {cs : List Char} {n : Nat} (h : isBoundary cs n) :
    ∃ pre post, cs = pre ++ post ∧ byteLength pre = n := by
  induction cs generalizing n with
  | nil =>
    cases n with
    | zero => exact ⟨[], [], rfl, rfl⟩
    | succ n => cases h
  | cons c cs ih =>
    cases n with
    | zero => exact ⟨[], c :: cs, rfl, rfl⟩
    | succ n =>
      simp only [isBoundary, Bool.and_eq_true, decide_eq_true_eq] at h
      obtain ⟨hle, hrest⟩ := h
      obtain ⟨pre, post, rfl, hpre⟩ := ih hrest
      refine ⟨c :: pre, post, rfl, ?_⟩
      rw [byteLength_cons, hpre]
      omega

/-- A boundary is where a front of the text ends. -/
theorem isBoundary_iff {cs : List Char} {n : Nat} :
    isBoundary cs n ↔ ∃ pre post, cs = pre ++ post ∧ byteLength pre = n := by
  constructor
  · exact exists_append_of_isBoundary
  · rintro ⟨pre, post, rfl, rfl⟩
    exact isBoundary_append pre post

theorem byteLength_eq_zero {cs : List Char} (h : byteLength cs = 0) : cs = [] := by
  cases cs with
  | nil => rfl
  | cons c cs =>
    have hc := c.utf8Size_pos
    rw [byteLength_cons] at h
    omega

/-- Two boundaries take a text apart: what stands before, between and behind them. -/
theorem exists_range {cs : List Char} {start stop : Nat} (ordered : start ≤ stop) (hstart : isBoundary cs start)
    (hstop : isBoundary cs stop) : ∃ before inside behind, cs = before ++ (inside ++ behind) ∧
      byteLength before = start ∧ byteLength before + byteLength inside = stop := by
  obtain ⟨before, post, rfl, rfl⟩ := isBoundary_iff.1 hstart
  obtain ⟨pre, behind, hcs, rfl⟩ := isBoundary_iff.1 hstop
  rcases List.append_eq_append_iff.1 hcs with ⟨inside, rfl, rfl⟩ | ⟨inside, rfl, rfl⟩
  · exact ⟨before, inside, behind, rfl, rfl, by rw [byteLength_append]⟩
  · -- the second boundary is not before the first, so nothing stands between them
    rw [byteLength_append] at ordered
    obtain rfl : inside = [] := byteLength_eq_zero (by omega)
    exact ⟨pre, [], post, by simp, by simp, by simp⟩

end Text

/-! ## Parsing a range -/

theorem Cursor.ofRangeAt_atOffset (source : List Char) (start stop : Nat) :
    ofRangeAt source start stop (Location.atOffset source start 0) = ofRange source start stop := rfl

/-- What the characters of a range are parsed as, moved to where they lie. -/
theorem Expr.parseRangeAt_eq_mapError (source : List Char) (start stop : Nat) (place : Location) :
    parseRangeAt source start stop place =
      (parse (Text.slice source start stop)).mapError (SyntaxError.moved start) := by
  refine parseAt_moved rfl ?_
  exact (Nat.zero_add start).symm

theorem Expr.parseRange_eq_mapError (source : List Char) (start stop : Nat) :
    parseRange source start stop = (parse (Text.slice source start stop)).mapError (SyntaxError.moved start) :=
  parseRangeAt_eq_mapError source start stop (Location.atOffset source start 0)

/-- **A range is parsed as the characters in it alone.** The tree is the same, wherever they stand and whatever line
and column they are said to start at; an error has the same cause, and with it the same label and hint, and marks the
bytes that lie as much further on as the range does. -/
theorem Expr.parseRange_eq_parse_slice (source : List Char) (start stop : Nat) :
    parseRange source start stop = (parse (Text.slice source start stop)).mapError (SyntaxError.moved start) ∧
    (∀ place, parseRangeAt source start stop place = parseRange source start stop) ∧
    ∀ error, parse (Text.slice source start stop) = .error error →
      ∃ error', parseRange source start stop = .error error' ∧ error'.cause = error.cause ∧
        error'.message = error.message ∧ error'.label = error.label ∧ error'.hint = error.hint ∧
        error'.span = (error.span.1 + start, error.span.2 + start) := by
  have hrange := parseRange_eq_mapError source start stop
  refine ⟨hrange, ?_, ?_⟩
  · intro place
    rw [parseRangeAt_eq_mapError, hrange]
  · intro error herror
    rw [herror] at hrange
    refine ⟨error.moved start, hrange, rfl, rfl, rfl, rfl, ?_⟩
    simp only [SyntaxError.span, SyntaxError.moved, Nat.add_right_comm]

/-- A reference that breaks off, behind a character of two bytes and opening braces. -/
theorem Expr.parseRange_brokenOff :
    parse (Text.slice "é\x7b\x7brow \x7d\x7d".toList 4 8) =
      .error ⟨.unexpectedToken "'['" "<end of block>" "the expression is incomplete", 4, 0⟩ ∧
    ∃ error, parseRange "é\x7b\x7brow \x7d\x7d".toList 4 8 = .error error ∧
      error.label = "expected '[', found <end of block>" ∧ error.span = (8, 8) := by
  have htokens : (Cursor.ofText (Text.slice "é\x7b\x7brow \x7d\x7d".toList 4 8)).tokens =
      .ok [⟨.ident "row", ⟨1, 1, 0, 3⟩⟩, ⟨.blockEnd, ⟨1, 5, 4, 0⟩⟩] := by
    cbv
  have hslice : parse (Text.slice "é\x7b\x7brow \x7d\x7d".toList 4 8) =
      .error ⟨.unexpectedToken "'['" "<end of block>" "the expression is incomplete", 4, 0⟩ := by
    rw [parse, parseAt, htokens]
    rfl
  obtain ⟨error, herror, -, -, hlabel, -, hspan⟩ :=
    (parseRange_eq_parse_slice "é\x7b\x7brow \x7d\x7d".toList 4 8).2.2 _ hslice
  refine ⟨hslice, error, herror, ?_, hspan⟩
  rw [hlabel]
  decide

end PropertyExpr
