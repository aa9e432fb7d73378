import Mathlib.Data.List.TakeWhile
import PropertyExpr.Proofs.Rendering
/-!
# Where evaluation stops

`follows_references` — an evaluation asks for the references of a template from left to right, each as often as it
occurs, and stops at the first that is not well formed. Whether it fails, and with what, is settled by the template
alone: no answer of the environment makes it fail or lets it go on.

A template whose references are all well formed runs to its end (`Evaluation.run_template`). Otherwise there is a first
reference that is not, and the lemmas here follow the evaluation up to it: what stands before it runs to the end, what
stands behind it is never reached.
-/
namespace PropertyExpr

/-- In two rows, one after the other, a member is in the first or behind it in the second. -/
theorem mem_first_or_second {α : Type} {as bs before after : List α} {x : α} (h : as ++ bs = before ++ x :: after) :
    (∃ between, as = before ++ x :: between) ∨ ∃ between, before = as ++ between ∧ bs = between ++ x :: after := by
  rcases List.append_eq_append_iff.1 h with ⟨between, hbefore, hbs⟩ | ⟨between, has, hafter⟩
  · exact .inr ⟨between, hbefore, hbs⟩
  · cases between with
    | nil => exact .inr ⟨[], by rw [has, List.append_nil, List.append_nil], hafter.symm⟩
    | cons y between =>
      obtain ⟨rfl, -⟩ := List.cons.inj hafter
      exact .inl ⟨between, has⟩

namespace Evaluation

section
variable (env : Environment) {before after : List Reference} {r : Reference} {d : Reference.Defect}

/-- A reference with a defect is not asked for. -/
theorem run_reference_of_defect (hr : r.defect? = some d) (trace : Trace) :
    EStateM.run (reference env r) trace = .error (.invalid r.toJson.text d.message) trace := by
  simp only [reference, hr]
  rfl

/-- A tree is evaluated up to the first of its references that has a defect. -/
theorem run_expr_of_defect (e : Expr) (hrefs : e.references = before ++ r :: after)
    (hbefore : ∀ q ∈ before, q.defect? = none) (hr : r.defect? = some d) (trace : Trace) :
    ∃ log, EStateM.run (expr env e) trace =
      .error (.invalid r.toJson.text d.message) ⟨before.reverse ++ trace.asked, log⟩ := by
  induction e generalizing before after trace with
  | number n => simp [Expr.references] at hrefs
  | string s => simp [Expr.references] at hrefs
  | ref q =>
    rw [Expr.references, List.singleton_eq_append_iff] at hrefs
    rcases hrefs with ⟨rfl, hq⟩ | ⟨-, hnil⟩
    · obtain ⟨rfl, -⟩ := List.cons.inj hq
      exact ⟨trace.log, run_reference_of_defect env hr trace⟩
    · cases hnil
  | binary op left right ihl ihr =>
    rcases mem_first_or_second hrefs with ⟨between, hleft⟩ | ⟨between, rfl, hright⟩
    · obtain ⟨log, hrun⟩ := ihl hleft hbefore trace
      refine ⟨log, ?_⟩
      rw [expr, EStateM.run_bind, hrun]
    · simp only [List.mem_append] at hbefore
      obtain ⟨log, hleft⟩ := run_expr env left (fun q h => hbefore q (.inl h)) trace
      obtain ⟨log', hrun⟩ := ihr hright (fun q h => hbefore q (.inr h)) ⟨left.references.reverse ++ trace.asked, log⟩
      refine ⟨log', ?_⟩
      rw [expr, EStateM.run_bind, hleft]
      simp only [EStateM.run_bind, hrun, List.reverse_append, List.append_assoc]

theorem run_segment_of_defect (segment : Segment) (hrefs : segment.references = before ++ r :: after)
    (hbefore : ∀ q ∈ before, q.defect? = none) (hr : r.defect? = some d) (trace : Trace) :
    ∃ log, EStateM.run (Evaluation.segment env segment) trace =
      .error (.invalid r.toJson.text d.message) ⟨before.reverse ++ trace.asked, log⟩ := by
  cases segment with
  | text s => simp [Segment.references] at hrefs
  | code e =>
    obtain ⟨log, hrun⟩ := run_expr_of_defect env e hrefs hbefore hr trace
    refine ⟨log, ?_⟩
    rw [Evaluation.segment, EStateM.run_bind, hrun]

theorem run_segments_of_defect (segments : List Segment)
    (hrefs : segments.flatMap Segment.references = before ++ r :: after)
    (hbefore : ∀ q ∈ before, q.defect? = none) (hr : r.defect? = some d) (trace : Trace) :
    ∃ log, EStateM.run (Evaluation.segments env segments) trace =
      .error (.invalid r.toJson.text d.message) ⟨before.reverse ++ trace.asked, log⟩ := by
  induction segments generalizing before after trace with
  | nil => simp at hrefs
  | cons segment segments ih =>
    rw [List.flatMap_cons] at hrefs
    rcases mem_first_or_second hrefs with ⟨between, hfirst⟩ | ⟨between, rfl, hothers⟩
    · obtain ⟨log, hrun⟩ := run_segment_of_defect env segment hfirst hbefore hr trace
      refine ⟨log, ?_⟩
      rw [Evaluation.segments, EStateM.run_bind, hrun]
    · simp only [List.mem_append] at hbefore
      obtain ⟨log, hfirst⟩ := run_segment env segment (fun q h => hbefore q (.inl h)) trace
      obtain ⟨log', hrun⟩ := ih hothers (fun q h => hbefore q (.inr h)) ⟨segment.references.reverse ++ trace.asked, log⟩
      refine ⟨log', ?_⟩
      rw [Evaluation.segments, EStateM.run_bind, hfirst]
      simp only [EStateM.run_bind, hrun, List.reverse_append, List.append_assoc]

theorem run_template_of_defect (t : Template) (hrefs : t.references = before ++ r :: after)
    (hbefore : ∀ q ∈ before, q.defect? = none) (hr : r.defect? = some d) :
    ∃ log, EStateM.run (Evaluation.template env t) .start =
      .error (.invalid r.toJson.text d.message) ⟨before.reverse, log⟩ := by
  cases t with
  | literal s => simp [Template.references] at hrefs
  | single e =>
    obtain ⟨log, hrun⟩ := run_expr_of_defect env e hrefs hbefore hr .start
    rw [Trace.start, List.append_nil] at hrun
    exact ⟨log, hrun⟩
  | composite segments =>
    obtain ⟨log, hrun⟩ := run_segments_of_defect env segments hrefs hbefore hr .start
    rw [Trace.start, List.append_nil] at hrun
    refine ⟨log, ?_⟩
    rw [Evaluation.template, EStateM.run_bind, Trace.start, hrun]

end

end Evaluation

/-! ## The outcome -/

theorem Reference.wellFormed_iff {r : Reference} : r.WellFormed ↔ r.defect? = none := by
  have hone : (1 : Int64).toInt = 1 := by decide
  rw [WellFormed, defect?_eq_none_iff, Int64.le_iff_toInt_le, hone]

/-- Every row of references is well formed, or has a first that is not. -/
theorem exists_first_defect (refs : List Reference) : (∀ r ∈ refs, r.defect? = none) ∨
    ∃ before r after d, refs = before ++ r :: after ∧ (∀ q ∈ before, q.defect? = none) ∧ r.defect? = some d := by
  induction refs with
  | nil => exact .inl (by simp)
  | cons r refs ih =>
    cases hr : r.defect? with
    | some d => exact .inr ⟨[], r, refs, d, rfl, by simp, hr⟩
    | none =>
      rcases ih with hall | ⟨before, q, after, d, rfl, hbefore, hq⟩
      · exact .inl (by simpa [hr] using hall)
      · exact .inr ⟨r :: before, q, after, d, rfl, by simpa [hr] using hbefore, hq⟩

section
variable (env : Environment) {t : Template}

theorem asked_evaluate (hrefs : ∀ r ∈ t.references, r.defect? = none) : (evaluate env t).asked = t.references := by
  obtain ⟨log, hrun⟩ := Evaluation.run_template env t hrefs
  have hrun : Evaluation.template env t .start = .ok (t.value env) ⟨t.references.reverse, log⟩ := hrun
  rw [evaluate, Evaluation.run, hrun]
  exact List.reverse_reverse _

/-- An evaluation that comes to a defect has asked for the references before it. -/
theorem evaluate_of_defect {before after : List Reference} {r : Reference} {d : Reference.Defect}
    (hrefs : t.references = before ++ r :: after) (hbefore : ∀ q ∈ before, q.defect? = none)
    (hr : r.defect? = some d) :
    (evaluate env t).result = .error (.invalid r.toJson.text d.message) ∧ (evaluate env t).asked = before := by
  obtain ⟨log, hrun⟩ := Evaluation.run_template_of_defect env t hrefs hbefore hr
  have hrun : Evaluation.template env t .start =
      .error (.invalid r.toJson.text d.message) ⟨before.reverse, log⟩ := hrun
  rw [evaluate, Evaluation.run, hrun]
  exact ⟨rfl, List.reverse_reverse _⟩

theorem Reference.not_wellFormed_iff {r : Reference} : ¬ r.WellFormed ↔ ∃ d, r.defect? = some d := by
  rw [wellFormed_iff, ← ne_eq, Option.ne_none_iff_exists']

/-- An evaluation fails exactly if some reference is not well formed. -/
theorem evaluate_fails_iff : (∃ error, (evaluate env t).result = .error error) ↔ ∃ r ∈ t.references, ¬ r.WellFormed := by
  rcases exists_first_defect t.references with hall | ⟨before, r, after, d, hrefs, hbefore, hr⟩
  · have hresult := result_evaluate env hall
    constructor
    · rintro ⟨error, herror⟩
      cases hresult.symm.trans herror
    · rintro ⟨r, hr, hbad⟩
      exact absurd (Reference.wellFormed_iff.2 (hall r hr)) hbad
  · constructor
    · intro _
      exact ⟨r, by simp [hrefs], Reference.not_wellFormed_iff.2 ⟨d, hr⟩⟩
    · intro _
      exact ⟨_, (evaluate_of_defect env hrefs hbefore hr).1⟩

/-- Asked for are the references up to the first that is not well formed. -/
theorem asked_eq_takeWhile : (evaluate env t).asked = t.references.takeWhile fun r => decide r.WellFormed := by
  have hwell {refs : List Reference} (h : ∀ r ∈ refs, r.defect? = none) : ∀ r ∈ refs, decide r.WellFormed = true :=
    fun r hr => decide_eq_true (Reference.wellFormed_iff.2 (h r hr))
  rcases exists_first_defect t.references with hall | ⟨before, r, after, d, hrefs, hbefore, hr⟩
  · rw [asked_evaluate env hall, List.takeWhile_eq_self_iff.2 (hwell hall)]
  · have hbad : ¬ r.WellFormed := Reference.not_wellFormed_iff.2 ⟨d, hr⟩
    rw [(evaluate_of_defect env hrefs hbefore hr).2, hrefs, List.takeWhile_append_of_pos (hwell hbefore),
      List.takeWhile_cons_of_neg (by simpa using hbad), List.append_nil]

end

/-- The second reference has no rank that a row could have. -/
example : (evaluate .empty (.composite [.code (.ref ⟨"a", 1, "b"⟩), .text ", ", .code (.ref ⟨"a", 0, "b"⟩),
    .code (.ref ⟨"c", 1, "d"⟩)])).asked = [⟨"a", 1, "b"⟩] := by rfl

/-- What an evaluation comes to, told by the references of the template. -/
structure FollowsReferences (env : Environment) (t : Template) : Prop where
  /-- It fails exactly if some reference is not well formed. -/
  fails_iff : (∃ error, (evaluate env t).result = .error error) ↔ ∃ r ∈ t.references, ¬ r.WellFormed
  /-- The error shows the first that is not, with its first defect. -/
  error : ∀ before r after, t.references = before ++ r :: after → (∀ q ∈ before, q.WellFormed) → ¬ r.WellFormed →
    ∃ d, r.defect? = some d ∧ (evaluate env t).result = .error (.invalid r.toJson.text d.message)
  /-- The references before it are asked for, one by one. -/
  asked : (evaluate env t).asked = t.references.takeWhile fun r => decide r.WellFormed

/-- **An evaluation follows the references** of its template up to the first that is not well formed. -/
theorem follows_references (env : Environment) (t : Template) : FollowsReferences env t where
  fails_iff := evaluate_fails_iff env
  error before r after hrefs hbefore hr := by
    obtain ⟨d, hd⟩ := Reference.not_wellFormed_iff.1 hr
    have hbefore : ∀ q ∈ before, q.defect? = none := fun q hq => Reference.wellFormed_iff.1 (hbefore q hq)
    exact ⟨d, hd, (evaluate_of_defect env hrefs hbefore hd).1⟩
  asked := asked_eq_takeWhile env

end PropertyExpr
