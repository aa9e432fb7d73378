import PropertyExpr.Text.Bytes
/-!
# Places in a template: `lexer::token::SourceLocation`

Offsets and lengths count UTF-8 bytes, columns count characters, and lines and columns start at 1. A place
is found from the text before it, either all at once (`Location.after`) or character by character
(`Location.step`); `foldl_step` says that both agree.
-/
namespace PropertyExpr

/-- A place in a template and the number of bytes there (`SourceLocation`). -/
structure Location where
  line : Nat
  column : Nat
  offset : Nat
  length : Nat
deriving DecidableEq, Repr, Inhabited

namespace Location

/-- The start of a text. -/
def origin : Location := ⟨1, 1, 0, 0⟩

/-- The place behind one more character (`Lexer::advance`). -/
def step (loc : Location) (c : Char) : Location where
  line := if c = '\n' then loc.line + 1 else loc.line
  column := if c = '\n' then 1 else loc.column + 1
  offset := loc.offset + c.utf8Size
  length := 0

/-- The place behind `passed`: each line feed starts a line, and the column counts the characters since the
last one. -/
def after (loc : Location) (passed : List Char) : Location where
  line := loc.line + passed.count '\n'
  column :=
    if '\n' ∈ passed then (passed.reverse.takeWhile (· ≠ '\n')).length + 1
    else loc.column + passed.length
  offset := loc.offset + Text.byteLength passed
  length := 0

/-- The place at byte `offset` of `source`, which is not before `loc` (`SourceLocation::advance_to`). -/
def advanceTo (loc : Location) (source : List Char) (offset : Nat) : Location :=
  { loc.after (Text.slice source loc.offset offset) with offset }

/-- The place of the `length` bytes from byte `offset` of `source` (`SourceLocation::at_offset`). -/
def atOffset (source : List Char) (offset length : Nat) : Location :=
  { origin.advanceTo source offset with length }

/-- From the start of one place to the end of another (`SourceLocation::span_to`); empty if that end lies before the
start. -/
def spanTo (loc other : Location) : Location :=
  { loc with length := other.offset + other.length - loc.offset }

/-- How a place is written in messages (`SourceLocation::fmt`). -/
def display (loc : Location) : String := s!"<template>:{loc.line}:{loc.column}"

/-- A line feed hides what stands before it. -/
theorem takeWhile_append_of_mem {l : List Char} (h : '\n' ∈ l) (r : List Char) :
    (l ++ r).takeWhile (· ≠ '\n') = l.takeWhile (· ≠ '\n') := by
  induction l with
  | nil => simp at h
  | cons c l ih =>
    by_cases hc : c = '\n'
    · simp [hc]
    · have : '\n' ∈ l := by simpa [Ne.symm hc] using h
      simpa [List.takeWhile_cons, hc] using ih this

theorem after_cons (loc : Location) (c : Char) (cs : List Char) :
    loc.after (c :: cs) = (loc.step c).after cs := by
  by_cases hm : '\n' ∈ cs
  · have h := takeWhile_append_of_mem (List.mem_reverse.mpr hm) [c]
    simp only [ne_eq, decide_not] at h
    by_cases hc : c = '\n' <;> simp [after, step, hm, hc] <;> grind
  · by_cases hc : c = '\n'
    · have h : (cs.reverse ++ ['\n']).takeWhile (· ≠ '\n') = cs.reverse := by
        rw [List.takeWhile_append_of_pos]
        · simp
        · intro a ha
          have : a ≠ '\n' := fun e => hm (e ▸ List.mem_reverse.mp ha)
          simpa using this
      simp only [ne_eq, decide_not] at h
      simp [after, step, hm, hc, h]
      omega
    · simp [after, step, hm, hc, Ne.symm hc]
      omega

/-- Passing two texts is passing the second from where the first ends. -/
theorem after_append (loc : Location) (a b : List Char) : loc.after (a ++ b) = (loc.after a).after b := by
  induction a generalizing loc with
  | nil => simp [after]
  | cons c a ih => rw [List.cons_append, after_cons, ih, after_cons]

theorem after_nil (loc : Location) : loc.after [] = { loc with length := 0 } := by simp [after]

/-- Passing a text character by character ends where passing it at once does. -/
theorem foldl_step (loc : Location) (cs : List Char) (h : loc.length = 0) :
    cs.foldl step loc = loc.after cs := by
  induction cs generalizing loc with
  | nil => rw [after_nil, List.foldl_nil, ← h]
  | cons c cs ih => rw [List.foldl_cons, ih _ rfl, after_cons]

end Location

end PropertyExpr
