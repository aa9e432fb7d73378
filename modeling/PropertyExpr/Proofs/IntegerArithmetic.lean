import PropertyExpr.Proofs.IntegerText
import PropertyExpr.Proofs.Numerals
import PropertyExpr.Proofs.Stopping
/-!
# Arithmetic on integers is exact

`Expr.IsInteger` says that a tree of sums, differences and products over integers has an exact value, and that neither
it nor the value of any part is larger than `2 ^ 53` in magnitude. An operand may be an integer, a text of digits, or
nothing at all, which counts as zero. Then the tree evaluates to a number that equals the exact value, is written with
its digits, and is that integer in JSON (`result_of_isInteger`), whatever zeros the evaluation goes through.
-/
namespace PropertyExpr

/-! ## Exact values -/

/-- What an operator gives for integers; division need not give an integer. -/
def Operator.onIntegers? : Operator → Int → Int → Option Int
  | .add, a, b => some (a + b)
  | .sub, a, b => some (a - b)
  | .mul, a, b => some (a * b)
  | .div, _, _ => none

/-- The text is an integer: digits, with or without a sign. -/
inductive SpellsInteger : List Char → Int → Prop where
  | plain {digits : List Char} (nonempty : digits ≠ []) (all : ∀ c ∈ digits, c.isDigit) :
      SpellsInteger digits (digitsValue digits)
  | plus {digits : List Char} (nonempty : digits ≠ []) (all : ∀ c ∈ digits, c.isDigit) :
      SpellsInteger ('+' :: digits) (digitsValue digits)
  | minus {digits : List Char} (nonempty : digits ≠ []) (all : ∀ c ∈ digits, c.isDigit) :
      SpellsInteger ('-' :: digits) (-digitsValue digits)

/-- The answer counts as an integer. What is not found, or does not render, counts as zero. -/
inductive AnswersInteger : Except LookupError Value → Int → Prop where
  | missed (error : LookupError) : AnswersInteger (.error error) 0
  | unrendered {value : Value} (none : value.render? = none) : AnswersInteger (.ok value) 0
  | int (n : Int64) : AnswersInteger (.ok (.int n)) n.toInt
  | text {s : String} {v : Int} (spells : SpellsInteger s.toList v) : AnswersInteger (.ok (.string s)) v

/-- The exact value of a tree of integers when `asked` was asked before. No part is larger than `2 ^ 53`. -/
inductive Expr.IsInteger (env : Environment) : List Reference → Expr → Int → Prop where
  | number {asked : List Reference} {n : Int64} (bound : n.toInt.natAbs ≤ 2 ^ 53) :
      IsInteger env asked (.number n) n.toInt
  | ref {asked : List Reference} {r : Reference} {v : Int} (wellFormed : r.WellFormed)
      (answers : AnswersInteger (env.answer asked r) v) (bound : v.natAbs ≤ 2 ^ 53) : IsInteger env asked (.ref r) v
  | binary {asked : List Reference} {op : Operator} {left right : Expr} {a b v : Int}
      (isInteger_left : IsInteger env asked left a)
      (isInteger_right : IsInteger env (left.references.reverse ++ asked) right b)
      (value : op.onIntegers? a b = some v) (bound : v.natAbs ≤ 2 ^ 53) : IsInteger env asked (.binary op left right) v

/-! ## Operands -/

/-- Digits with a sign are read as their integer. -/
theorem standsFor_ofText {s : String} {v : Int} (h : SpellsInteger s.toList v) (bound : v.natAbs ≤ 2 ^ 53) :
    StandsFor (Number.ofText s) v := by
  rw [← String.ofList_toList (s := s)]
  generalize s.toList = cs at h
  cases h with
  | plain hne hdigits =>
    rw [(Number.ofText_digits hne hdigits).1]
    exact .ofNat bound
  | plus hne hdigits =>
    rw [(Number.ofText_digits hne hdigits).2.2]
    exact .ofNat bound
  | minus hne hdigits =>
    rw [(Number.ofText_digits hne hdigits).2.1]
    exact StandsFor.neg (.ofNat (by rwa [Int.natAbs_neg] at bound))

theorem standsFor_ofAnswer {answer : Except LookupError Value} {v : Int} (h : AnswersInteger answer v)
    (bound : v.natAbs ≤ 2 ^ 53) : StandsFor (Rendered.ofAnswer answer).toNumber v := by
  have hempty : StandsFor Rendered.empty.toNumber 0 := .zero .positive
  cases h with
  | missed error => exact hempty
  | unrendered hnone =>
    rw [Rendered.ofAnswer, hnone]
    exact hempty
  | int n => exact .ofInt bound
  | text hspells => exact standsFor_ofText hspells bound

/-! ## Trees -/

namespace Expr.IsInteger

variable {env : Environment} {asked : List Reference} {e : Expr} {v : Int}

theorem bound (h : IsInteger env asked e v) : v.natAbs ≤ 2 ^ 53 := by
  cases h <;> assumption

theorem defect?_eq_none (h : IsInteger env asked e v) : ∀ r ∈ e.references, r.defect? = none := by
  induction h with
  | number bound => simp [references]
  | ref wellFormed answers bound =>
    intro r hr
    obtain rfl := List.mem_singleton.1 hr
    exact Reference.wellFormed_iff.1 wellFormed
  | binary _ _ value bound ihl ihr => exact List.forall_mem_append.2 ⟨ihl, ihr⟩

/-- **Every part of the tree has its exact value as an operand.** -/
theorem standsFor (h : IsInteger env asked e v) : StandsFor (e.value env asked).toNumber v := by
  induction h with
  | number bound => exact .ofInt bound
  | ref wellFormed answers bound => exact standsFor_ofAnswer answers bound
  | @binary asked op left right a b v _ _ value bound ihl ihr =>
    rw [Expr.value, Rendered.toNumber]
    cases op with
    | add =>
      cases value
      exact ihl.add ihr bound
    | sub =>
      cases value
      exact ihl.sub ihr bound
    | mul =>
      cases value
      exact ihl.mul ihr bound
    | div => cases value

end Expr.IsInteger

/-- **Arithmetic on integers is exact** up to `2 ^ 53`: the result is a number that equals the exact value, is written
with the digits of the integer, and below the bound is that integer in JSON. -/
theorem result_of_isInteger {env : Environment} {op : Operator} {left right : Expr} {v : Int}
    (h : (Expr.binary op left right).IsInteger env [] v) :
    ∃ x, (evaluateExpr env (.binary op left right)).result = .ok (.number x) ∧ x == Float.ofInt v ∧
      (Rendered.number x).text = toString v ∧ (v.natAbs < 2 ^ 53 → (Rendered.number x).toJson = .int v) := by
  have hstands := h.standsFor
  have hresult : (evaluateExpr env (.binary op left right)).result = .ok ((Expr.binary op left right).value env []) :=
    result_evaluate env (t := .single (.binary op left right)) h.defect?_eq_none
  exact ⟨_, hresult, hstands.beq_ofInt h.bound, hstands.text_eq h.bound, hstands.toJson_eq⟩

/-- A negative zero is written, and is in JSON, like any other zero. -/
theorem result_of_isInteger_negativeZero :
    let env := Environment.ofFunction fun _ => .ok (.string "-0")
    let e := Expr.binary .mul (.ref ⟨"a", 1, "b"⟩) (.number 5)
    e.IsInteger env [] 0 ∧ ∃ x, (evaluateExpr env e).result = .ok (.number x) ∧ x == Float.ofInt 0 ∧
      (Rendered.number x).text = "0" ∧ (Rendered.number x).toJson = .int 0 := by
  intro env e
  have hspells : SpellsInteger "-0".toList 0 := @SpellsInteger.minus ['0'] (by decide) (by simp)
  have hleft : (Expr.ref ⟨"a", 1, "b"⟩).IsInteger env [] 0 := .ref (by decide) (.text hspells) (by decide)
  have h : e.IsInteger env [] 0 := .binary hleft (.number (by decide)) rfl hleft.bound
  obtain ⟨x, hresult, hvalue, htext, hjson⟩ := result_of_isInteger h
  exact ⟨h, x, hresult, hvalue, htext, hjson (by decide)⟩

end PropertyExpr
