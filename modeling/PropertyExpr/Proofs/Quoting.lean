import PropertyExpr.Template.Piece
/-!
# Braces outside of string literals

Whether a place in a block is inside of a string literal depends on the quotes and backslashes before it, which are
followed here one character at a time (`Quoting.after`). The search for closing braces does without: it passes over a
hidden character together with the backslash before it. It finds the first closing braces outside of string literals
all the same (`closesFirst_of_breakAtClosing?`), and if it finds none there are none (`not_closes_of_breakAtClosing?`).
-/
namespace PropertyExpr.Piece

/-- What the characters so far leave open. -/
inductive Quoting where
  /-- No string literal. -/
  | outside
  /-- A string literal. -/
  | inside
  /-- A string literal in which the next character is hidden. -/
  | hidden
deriving DecidableEq, Repr

namespace Quoting

def next : Quoting → Char → Quoting
  | outside, c => if c = '"' then inside else outside
  | inside, c => if c = '"' then outside else if c = '\\' then hidden else inside
  | hidden, _ => inside

/-- What a text leaves open. -/
def after (q : Quoting) (cs : List Char) : Quoting := cs.foldl next q

/-- Inside or outside of a string literal. -/
def ofBool (inString : Bool) : Quoting := if inString then inside else outside

end Quoting

/-- Closing braces stand right behind `inner` in `body`, and outside of the string literals that `q` and `inner`
open. -/
def Closes (q : Quoting) (inner body : List Char) : Prop := inner ++ closeBraces <+: body ∧ q.after inner = .outside

instance (q : Quoting) (inner body : List Char) : Decidable (Closes q inner body) := inferInstanceAs (Decidable (_ ∧ _))

/-- The first closing braces outside of string literals. -/
def ClosesFirst (q : Quoting) (inner body : List Char) : Prop :=
  Closes q inner body ∧ ∀ inner', Closes q inner' body → inner.length ≤ inner'.length

section
variable {q : Quoting} {c d : Char} {inner body : List Char}

theorem closes_cons_iff : Closes q (c :: inner) (d :: body) ↔ c = d ∧ Closes (q.next c) inner body := by
  rw [Closes, Closes, List.cons_append, List.cons_prefix_cons, and_assoc]
  rfl

theorem closes_nil_iff : Closes q [] body ↔ closeBraces <+: body ∧ q = .outside := Iff.rfl

/-- Behind a character that does not close, the search goes on. -/
theorem closes_cons_right_iff (h : ¬ Closes q [] (c :: body)) :
    Closes q inner (c :: body) ↔ ∃ rest, inner = c :: rest ∧ Closes (q.next c) rest body := by
  constructor
  · intro hcloses
    cases inner with
    | nil => exact absurd hcloses h
    | cons d rest =>
      obtain ⟨rfl, hrest⟩ := closes_cons_iff.1 hcloses
      exact ⟨rest, rfl, hrest⟩
  · rintro ⟨rest, rfl, hrest⟩
    exact closes_cons_iff.2 ⟨rfl, hrest⟩

theorem ClosesFirst.cons (h : ¬ Closes q [] (c :: body)) (hrest : ClosesFirst (q.next c) inner body) :
    ClosesFirst q (c :: inner) (c :: body) := by
  refine ⟨closes_cons_iff.2 ⟨rfl, hrest.1⟩, ?_⟩
  intro inner' hinner'
  obtain ⟨rest, rfl, hcloses⟩ := (closes_cons_right_iff h).1 hinner'
  exact Nat.succ_le_succ (hrest.2 rest hcloses)

theorem not_closes_cons (h : ¬ Closes q [] (c :: body)) (hrest : ∀ inner, ¬ Closes (q.next c) inner body) :
    ¬ Closes q inner (c :: body) := by
  intro hcloses
  obtain ⟨rest, -, hcloses⟩ := (closes_cons_right_iff h).1 hcloses
  exact hrest rest hcloses

/-- Closing braces start with the character that the first of them is. -/
theorem not_closes_nil_cons (h : c ≠ '\x7d') : ¬ Closes q [] (c :: body) := by
  rintro ⟨hfront, -⟩
  exact h (List.cons_prefix_cons.1 hfront).1.symm

theorem not_closes_nil_of_ne (h : q ≠ .outside) : ¬ Closes q [] body := fun hcloses => h hcloses.2

theorem not_closes_of_length_lt (h : body.length < 2) : ¬ Closes q inner body := by
  rintro ⟨hfront, -⟩
  have hlength := hfront.length_le
  rw [List.length_append, show closeBraces.length = 2 from rfl] at hlength
  omega

end

/-! ## What the search passes over -/

section
variable {inString : Bool} {c d : Char} {cs : List Char}

/-- A character that is no quote and that hides none leaves things as they are. -/
theorem Quoting.next_ofBool (hquote : c ≠ '"') (hescape : ¬ (inString && c = '\\')) :
    (ofBool inString).next c = ofBool inString := by
  cases inString
  · exact if_neg hquote
  · have hbackslash : c ≠ '\\' := by simpa using hescape
    simp [ofBool, next, hquote, hbackslash]

theorem not_closes_nil_ofBool (hclose : ¬ (!inString && c = '\x7d' && d = '\x7d')) :
    ¬ Closes (.ofBool inString) [] (c :: d :: cs) := by
  rintro ⟨hfront, houtside⟩
  cases inString
  · obtain ⟨rfl, htail⟩ := List.cons_prefix_cons.1 hfront
    obtain ⟨rfl, -⟩ := List.cons_prefix_cons.1 htail
    exact hclose rfl
  · cases houtside

end

/-- **The search for closing braces finds the first ones** outside of string literals. -/
theorem closesFirst_of_breakAtClosing? {inString : Bool} {cs inner rest : List Char}
    (h : breakAtClosing? inString cs = some (inner, rest)) : ClosesFirst (.ofBool inString) inner cs := by
  fun_induction breakAtClosing? inString cs generalizing inner rest with
  | case1 => cases h
  | case2 inString cs ih =>
    obtain ⟨⟨inner, rest⟩, hcs, heq⟩ := Option.map_eq_some_iff.1 h
    cases heq
    refine .cons (not_closes_nil_cons (by decide)) ?_
    cases inString <;> exact ih hcs
  | case3 inString c d cs hquote hescape ih =>
    obtain ⟨⟨inner, rest⟩, hcs, heq⟩ := Option.map_eq_some_iff.1 h
    cases heq
    simp only [Bool.and_eq_true, decide_eq_true_eq] at hescape
    obtain ⟨rfl, rfl⟩ := hescape
    -- the character behind the backslash is hidden
    refine .cons (not_closes_nil_of_ne (by decide)) ?_
    exact .cons (not_closes_nil_of_ne (by decide)) (ih hcs)
  | case4 inString c d cs hquote hescape hclose =>
    cases h
    simp only [Bool.and_eq_true, Bool.not_eq_true', decide_eq_true_eq] at hclose
    obtain ⟨⟨rfl, rfl⟩, rfl⟩ := hclose
    exact ⟨closes_nil_iff.2 ⟨List.prefix_append closeBraces cs, rfl⟩, fun inner' _ => Nat.zero_le _⟩
  | case5 inString c d cs hquote hescape hclose ih =>
    obtain ⟨⟨inner, rest⟩, hcs, heq⟩ := Option.map_eq_some_iff.1 h
    cases heq
    refine .cons (not_closes_nil_ofBool hclose) ?_
    rw [Quoting.next_ofBool hquote hescape]
    exact ih hcs
  | case6 => cases h

/-- **Where it finds none there are none.** -/
theorem not_closes_of_breakAtClosing? {inString : Bool} {cs : List Char} (h : breakAtClosing? inString cs = none)
    (inner : List Char) : ¬ Closes (.ofBool inString) inner cs := by
  fun_induction breakAtClosing? inString cs generalizing inner with
  | case1 => exact not_closes_of_length_lt (by decide)
  | case2 inString cs ih =>
    rw [Option.map_eq_none_iff] at h
    refine not_closes_cons (not_closes_nil_cons (by decide)) ?_
    cases inString <;> exact ih h
  | case3 inString c d cs hquote hescape ih =>
    rw [Option.map_eq_none_iff] at h
    simp only [Bool.and_eq_true, decide_eq_true_eq] at hescape
    obtain ⟨rfl, rfl⟩ := hescape
    refine not_closes_cons (not_closes_nil_of_ne (by decide)) ?_
    intro rest
    exact not_closes_cons (not_closes_nil_of_ne (by decide)) (ih h)
  | case4 => cases h
  | case5 inString c d cs hquote hescape hclose ih =>
    rw [Option.map_eq_none_iff] at h
    refine not_closes_cons (not_closes_nil_ofBool hclose) ?_
    rw [Quoting.next_ofBool hquote hescape]
    exact ih h
  | case6 => exact not_closes_of_length_lt (by simp)

end PropertyExpr.Piece
