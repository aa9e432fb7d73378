import PropertyExpr.Proofs.Quoting
import PropertyExpr.Proofs.Stopping
/-!
# Pairs of parentheses

Two parentheses outside of string literals are a pair if those between them are balanced. Which ones are open is
followed one character at a time, together with the string literals (`openBehind`). What is open before a text stays
open behind it (`openBehind_raise`), so no pair has one parenthesis in a balanced text and the other behind it
(`MatchingParens.first_or_second`).
-/
namespace PropertyExpr.Text

open Piece (Quoting)

/-- What is open behind one more character: a string literal, and so many parentheses. None if it closes a parenthesis
that was not opened. -/
def openNext : Quoting × Nat → Char → Option (Quoting × Nat)
  | (.outside, depth), c =>
    if c = '(' then some (.outside, depth + 1)
    else if c = ')' then if depth = 0 then none else some (.outside, depth - 1)
    else some (Quoting.outside.next c, depth)
  | (q, depth), c => some (q.next c, depth)

/-- What is open behind `cs`. -/
def openBehind (start : Quoting × Nat) (cs : List Char) : Option (Quoting × Nat) := cs.foldlM openNext start

/-- Every parenthesis outside of string literals is opened or closed in the text itself, and every literal ends in it. -/
def Balanced (cs : List Char) : Prop := openBehind (.outside, 0) cs = some (.outside, 0)

instance (cs : List Char) : Decidable (Balanced cs) := inferInstanceAs (Decidable (_ = _))

/-- A pair of parentheses outside of string literals, with what stands before it, in it and behind it. -/
structure MatchingParens (cs before inner after : List Char) : Prop where
  text : cs = before ++ '(' :: (inner ++ ')' :: after)
  outside : Quoting.outside.after before = .outside
  balanced : Balanced inner

section
variable {q q' : Quoting} {depth depth' : Nat} {s : Quoting × Nat} {c : Char} {cs cs' before inner after : List Char}

theorem openBehind_cons : openBehind s (c :: cs) = (openNext s c).bind (openBehind · cs) := rfl

theorem openBehind_append : openBehind s (cs ++ cs') = (openBehind s cs).bind (openBehind · cs') :=
  List.foldlM_append

/-! ## What is open -/

theorem openNext_eq_some (h : openNext (q, depth) c = some (q', depth')) : q.next c = q' := by
  cases q with
  | outside =>
    simp only [openNext] at h
    split at h
    · cases h
      simp [Quoting.next, *]
    split at h
    · split at h
      · cases h
      · cases h
        simp [Quoting.next, *]
    · cases h
      rfl
  | inside | hidden =>
    cases h
    rfl

/-- String literals are followed as if there were no parentheses. -/
theorem after_of_openBehind (h : openBehind (q, depth) cs = some (q', depth')) : q.after cs = q' := by
  induction cs generalizing q depth with
  | nil =>
    cases h
    rfl
  | cons c cs ih =>
    obtain ⟨⟨q₁, depth₁⟩, hnext, hrest⟩ := Option.bind_eq_some_iff.1 h
    rw [Quoting.after, List.foldl_cons, openNext_eq_some hnext]
    exact ih hrest

theorem openNext_raise (h : openNext (q, depth) c = some (q', depth')) (k : Nat) :
    openNext (q, depth + k) c = some (q', depth' + k) := by
  cases q with
  | outside =>
    simp only [openNext] at h ⊢
    split at h
    · rename_i hopen
      cases h
      rw [if_pos hopen, Nat.add_right_comm]
    rename_i hopen
    split at h
    · rename_i hclose
      split at h
      · cases h
      · cases h
        rw [if_neg hopen, if_pos hclose, if_neg (by omega), Nat.sub_add_comm (by omega)]
    · rename_i hclose
      cases h
      rw [if_neg hopen, if_neg hclose]
  | inside | hidden =>
    cases h
    rfl

/-- What is open before a text stays open behind it. -/
theorem openBehind_raise (h : openBehind (q, depth) cs = some (q', depth')) (k : Nat) :
    openBehind (q, depth + k) cs = some (q', depth' + k) := by
  induction cs generalizing q depth with
  | nil =>
    cases h
    rfl
  | cons c cs ih =>
    obtain ⟨⟨q₁, depth₁⟩, hnext, hrest⟩ := Option.bind_eq_some_iff.1 h
    rw [openBehind_cons, openNext_raise hnext k]
    exact ih hrest

/-! ## Balanced texts -/

theorem Balanced.openBehind (h : Balanced cs) (depth : Nat) :
    openBehind (.outside, depth) cs = some (.outside, depth) := by
  have hraise := openBehind_raise h depth
  rwa [Nat.zero_add] at hraise

theorem Balanced.append (h : Balanced cs) (h' : Balanced cs') : Balanced (cs ++ cs') := by
  rw [Balanced, openBehind_append, h]
  exact h'

theorem Balanced.between_parens (h : Balanced cs) : Balanced ('(' :: (cs ++ [')'])) := by
  have hopen : openNext (.outside, 0) '(' = some (.outside, 1) := rfl
  rw [Balanced, openBehind_cons, hopen, Option.bind_some, openBehind_append, h.openBehind 1]
  rfl

/-- Characters that are neither parentheses nor quotes. -/
theorem balanced_of_plain (h : ∀ c ∈ cs, c ≠ '(' ∧ c ≠ ')' ∧ c ≠ '"') : Balanced cs := by
  induction cs with
  | nil => rfl
  | cons c cs ih =>
    rw [List.forall_mem_cons] at h
    obtain ⟨⟨hopen, hclose, hquote⟩, htail⟩ := h
    have hnext : openNext (.outside, 0) c = some (.outside, 0) := by
      simp [openNext, Quoting.next, hopen, hclose, hquote]
    rw [Balanced, openBehind_cons, hnext]
    exact ih htail

/-- A closing parenthesis behind a balanced text closes none of it. -/
theorem Balanced.not_balanced_append (h : Balanced cs) : ¬ Balanced (cs ++ ')' :: cs') := by
  rw [Balanced, openBehind_append, h]
  rintro ⟨⟩

/-- A balanced text in front of a closing parenthesis is the only one. -/
theorem Balanced.eq_of_append_eq {rest rest' : List Char} (h : Balanced cs) (h' : Balanced cs')
    (heq : cs ++ ')' :: rest = cs' ++ ')' :: rest') : cs = cs' := by
  rcases mem_first_or_second heq with ⟨between, rfl⟩ | ⟨between, rfl, hbehind⟩
  · exact absurd h h'.not_balanced_append
  · cases between with
    | nil => rw [List.append_nil]
    | cons c between =>
      obtain ⟨rfl, -⟩ := List.cons.inj hbehind
      exact absurd h' h.not_balanced_append

/-! ## Where pairs are -/

theorem not_matchingParens_of_notMem (h : '(' ∉ cs) : ¬ MatchingParens cs before inner after := by
  rintro ⟨rfl, -, -⟩
  exact h (by simp)

theorem not_matchingParens_of_plain (h : ∀ c ∈ cs, c ≠ '(' ∧ c ≠ ')' ∧ c ≠ '"') :
    ¬ MatchingParens cs before inner after :=
  not_matchingParens_of_notMem fun hmem => (h _ hmem).1 rfl

/-- **A pair in two texts** of which the first is balanced is in the first or in the second. -/
theorem MatchingParens.first_or_second (h : MatchingParens (cs ++ cs') before inner after) (hcs : Balanced cs) :
    (∃ between, after = between ++ cs' ∧ MatchingParens cs before inner between) ∨
      ∃ between, before = cs ++ between ∧ MatchingParens cs' between inner after := by
  obtain ⟨htext, houtside, hinner⟩ := h
  rcases mem_first_or_second htext with ⟨behind, rfl⟩ | ⟨between, rfl, rfl⟩
  · rw [List.append_assoc, List.append_cancel_left_eq, List.cons_append, List.cons.injEq] at htext
    rcases mem_first_or_second htext.2 with ⟨between, rfl⟩ | ⟨between, rfl, -⟩
    · refine .inl ⟨between, ?_, rfl, houtside, hinner⟩
      simpa using htext.2.symm
    · -- the parenthesis would be open behind the first text
      rw [Balanced, openBehind_append] at hcs hinner
      obtain ⟨⟨q, depth⟩, hbefore, hcs⟩ := Option.bind_eq_some_iff.1 hcs
      obtain ⟨⟨q', depth'⟩, hbehind, -⟩ := Option.bind_eq_some_iff.1 hinner
      obtain rfl : Quoting.outside = q := houtside.symm.trans (after_of_openBehind hbefore)
      have hraise := openBehind_raise hbehind (depth + 1)
      rw [Nat.zero_add] at hraise
      cases hcs.symm.trans hraise
  · rw [Quoting.after, List.foldl_append] at houtside
    have hbehind := after_of_openBehind hcs
    rw [Quoting.after] at hbehind
    rw [hbehind] at houtside
    exact .inr ⟨between, rfl, rfl, houtside, hinner⟩

/-- A pair in a balanced text between parentheses is those parentheses, or it is in the text. -/
theorem MatchingParens.around_or_in (h : MatchingParens ('(' :: (cs ++ [')'])) before inner after) (hcs : Balanced cs) :
    (before = [] ∧ inner = cs ∧ after = []) ∨
      ∃ before' after', before = '(' :: before' ∧ after = after' ++ [')'] ∧ MatchingParens cs before' inner after' := by
  obtain ⟨htext, houtside, hinner⟩ := h
  cases before with
  | nil =>
    have htail := (List.cons.inj htext).2
    obtain rfl := hcs.eq_of_append_eq hinner htail
    refine .inl ⟨rfl, rfl, ?_⟩
    simpa using htail
  | cons c before =>
    obtain ⟨rfl, htail⟩ := List.cons.inj htext
    have hpair : MatchingParens (cs ++ [')']) before inner after := ⟨htail, houtside, hinner⟩
    rcases hpair.first_or_second hcs with ⟨between, rfl, hin⟩ | ⟨between, -, hbehind⟩
    · exact .inr ⟨before, between, rfl, rfl, hin⟩
    · exact absurd hbehind (not_matchingParens_of_notMem (by decide))

end

end PropertyExpr.Text
