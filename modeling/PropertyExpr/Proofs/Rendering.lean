import PropertyExpr.Evaluation
import PropertyExpr.Proofs.Reparsing
import PropertyExpr.Proofs.Segments
/-!
# Rendering never fails

`render_eq_ok` — whatever a template says and whatever an environment answers, rendering gives a value. Evaluation
stops at a reference that is not well formed and nowhere else, and the parser makes no such reference
(`defect?_of_parse`). The value is said here without any state: `Template.value` reads it off the answers, where
everything that is not found or does not render is the empty text.

An environment may answer by what it was asked before, so the values of a tree are threaded through the references
asked so far, the latest first.
-/
namespace PropertyExpr

/-! ## Values of well-formed trees -/

/-- What an answer renders as: a miss, and a value that does not render, is the empty text. -/
def Rendered.ofAnswer : Except LookupError Value → Rendered
  | .ok value => value.render?.getD .empty
  | .error _ => .empty

/-- The answers of which a template has nothing: the lookup failed, or what was found is neither a number nor a text. -/
inductive Unrendered : Except LookupError Value → Prop where
  | failed (error : LookupError) : Unrendered (.error error)
  | null : Unrendered (.ok .null)
  | bool (b : Bool) : Unrendered (.ok (.bool b))
  | array (items : List Value) : Unrendered (.ok (.array items))
  | object (fields : List (String × Value)) : Unrendered (.ok (.object fields))

/-- What is found renders unless it is null, a boolean, an array or an object. -/
theorem Value.render?_eq_none_iff {value : Value} : value.render? = none ↔ Unrendered (.ok value) := by
  constructor
  · intro h
    cases value with
    | int | float | string => cases h
    | _ => constructor
  · rintro (_ | _ | _ | _ | _) <;> rfl

section
variable (env : Environment)

/-- The value of a tree when `asked` was asked before. -/
def Expr.value : (asked : List Reference) → Expr → Rendered
  | _, .number n => .number (Float.ofInt n.toInt)
  | _, .string s => .string s
  | asked, .ref r => .ofAnswer (env.answer asked r)
  | asked, .binary op left right =>
    .number (op.apply (value asked left).toNumber (value (left.references.reverse ++ asked) right).toNumber)

/-- The text of a segment when `asked` was asked before. -/
def Segment.value (asked : List Reference) : Segment → String
  | .text s => s
  | .code e => (e.value env asked).text

/-- The texts of segments, the first of which is evaluated when `asked` was asked before. -/
def Segment.values : (asked : List Reference) → List Segment → List String
  | _, [] => []
  | asked, segment :: segments =>
    segment.value env asked :: values (segment.references.reverse ++ asked) segments

def Template.value : Template → Rendered
  | .literal s => .string s
  | .single e => e.value env []
  | .composite segments => .string (String.join (Segment.values env [] segments))

/-! ## Evaluation gives the value -/

namespace Evaluation

theorem run_ask (r : Reference) (trace : Trace) :
    EStateM.run (ask env r) trace = .ok (env.answer trace.asked r) { trace with asked := r :: trace.asked } := rfl

theorem run_miss (r : Reference) (why : Miss) (trace : Trace) :
    EStateM.run (miss r why) trace = .ok .empty { trace with log := .missed r why :: trace.log } := rfl

/-- A reference of positive rank is asked for once and resolves to what the answer renders as. -/
theorem run_resolve {r : Reference} (hrank : ¬ r.rank < 1) (trace : Trace) :
    ∃ log, EStateM.run (resolve env r) trace = .ok (.ofAnswer (env.answer trace.asked r)) ⟨r :: trace.asked, log⟩ := by
  rw [resolve, if_neg hrank, EStateM.run_bind, run_ask]
  cases env.answer trace.asked r with
  | error error => exact ⟨_, run_miss r (.failed error) _⟩
  | ok value =>
    simp only [Rendered.ofAnswer]
    cases value.render? with
    | none => exact ⟨_, run_miss r (.unrenderable value.typeName) _⟩
    | some rendered => exact ⟨_, rfl⟩

theorem run_reference {r : Reference} (h : r.defect? = none) (trace : Trace) :
    ∃ log, EStateM.run (reference env r) trace = .ok (.ofAnswer (env.answer trace.asked r)) ⟨r :: trace.asked, log⟩ := by
  have hrank : ¬ r.rank < 1 := by
    intro hlt
    simp only [Reference.defect?, hlt, if_true] at h
    split at h <;> cases h
  simp only [reference, h]
  exact run_resolve env hrank trace

theorem run_expr (e : Expr) (hrefs : ∀ r ∈ e.references, r.defect? = none) (trace : Trace) :
    ∃ log, EStateM.run (expr env e) trace =
      .ok (e.value env trace.asked) ⟨e.references.reverse ++ trace.asked, log⟩ := by
  induction e generalizing trace with
  | number n => exact ⟨trace.log, rfl⟩
  | string s => exact ⟨trace.log, rfl⟩
  | ref r => exact run_reference env (hrefs r (by simp [Expr.references])) trace
  | binary op left right ihl ihr =>
    simp only [Expr.references, List.mem_append] at hrefs
    obtain ⟨log, hleft⟩ := ihl (fun r h => hrefs r (.inl h)) trace
    obtain ⟨log', hright⟩ := ihr (fun r h => hrefs r (.inr h)) ⟨left.references.reverse ++ trace.asked, log⟩
    refine ⟨log', ?_⟩
    rw [expr, EStateM.run_bind, hleft]
    simp only [EStateM.run_bind, hright, EStateM.run_pure, Expr.value, Expr.references, List.reverse_append,
      List.append_assoc]

theorem run_segment (segment : Segment) (hrefs : ∀ r ∈ segment.references, r.defect? = none) (trace : Trace) :
    ∃ log, EStateM.run (Evaluation.segment env segment) trace =
      .ok (segment.value env trace.asked) ⟨segment.references.reverse ++ trace.asked, log⟩ := by
  cases segment with
  | text s => exact ⟨trace.log, rfl⟩
  | code e =>
    obtain ⟨log, he⟩ := run_expr env e hrefs trace
    refine ⟨log, ?_⟩
    rw [Evaluation.segment, EStateM.run_bind, he]
    rfl

theorem run_segments (segments : List Segment)
    (hrefs : ∀ r ∈ segments.flatMap Segment.references, r.defect? = none) (trace : Trace) :
    ∃ log, EStateM.run (Evaluation.segments env segments) trace = .ok (Segment.values env trace.asked segments)
      ⟨(segments.flatMap Segment.references).reverse ++ trace.asked, log⟩ := by
  induction segments generalizing trace with
  | nil => exact ⟨trace.log, rfl⟩
  | cons segment segments ih =>
    simp only [List.flatMap_cons, List.mem_append] at hrefs
    obtain ⟨log, hfirst⟩ := run_segment env segment (fun r h => hrefs r (.inl h)) trace
    obtain ⟨log', hrest⟩ := ih (fun r h => hrefs r (.inr h)) ⟨segment.references.reverse ++ trace.asked, log⟩
    refine ⟨log', ?_⟩
    rw [Evaluation.segments, EStateM.run_bind, hfirst]
    simp only [EStateM.run_bind, hrest, EStateM.run_pure, Segment.values, List.flatMap_cons, List.reverse_append,
      List.append_assoc]

theorem run_template (t : Template) (hrefs : ∀ r ∈ t.references, r.defect? = none) :
    ∃ log, EStateM.run (Evaluation.template env t) .start = .ok (t.value env) ⟨t.references.reverse, log⟩ := by
  cases t with
  | literal s => exact ⟨[], rfl⟩
  | single e =>
    obtain ⟨log, he⟩ := run_expr env e hrefs .start
    rw [Trace.start, List.append_nil] at he
    exact ⟨log, he⟩
  | composite segments =>
    obtain ⟨log, hsegments⟩ := run_segments env segments hrefs .start
    refine ⟨log, ?_⟩
    rw [Trace.start, List.append_nil] at hsegments
    rw [Evaluation.template, EStateM.run_bind, Trace.start, hsegments]
    rfl

end Evaluation

/-- A template all of whose references are well formed evaluates to its value. -/
theorem result_evaluate {t : Template} (hrefs : ∀ r ∈ t.references, r.defect? = none) :
    (evaluate env t).result = .ok (t.value env) := by
  obtain ⟨log, ht⟩ := Evaluation.run_template env t hrefs
  have ht : Evaluation.template env t .start = .ok (t.value env) ⟨t.references.reverse, log⟩ := ht
  rw [evaluate, Evaluation.run, ht]

end

/-! ## What is parsed is well formed -/

namespace Template

theorem Part.exists_parseAt_of_mem {location : Location} {pieces : List Piece} {e : Expr}
    (h : .code e ∈ ofPieces location pieces) : ∃ c, Expr.parseAt c = .ok e := by
  induction pieces generalizing location with
  | nil => cases h
  | cons piece pieces ih =>
    rcases List.mem_cons.1 h with h | h
    · cases piece with
      | text start content => cases h
      | block start inner =>
        rw [ofPiece] at h
        split at h
        · rename_i hparse
          cases h
          exact ⟨_, hparse⟩
        · cases h
    · exact ih h

theorem exists_parseAt_of_mem {source : String} {e : Expr} (h : .code e ∈ (parse source).segments) :
    ∃ c, Expr.parseAt c = .ok e := by
  have hcode : e ∈ (parse source).segments.filterMap Segment.code? := List.mem_filterMap.2 ⟨.code e, h, rfl⟩
  rw [segments_parse, Part.filterMap_code?_segments] at hcode
  obtain ⟨part, hpart, he⟩ := List.mem_filterMap.1 hcode
  cases part with
  | text | kept => cases he
  | code e' =>
    cases he
    exact Part.exists_parseAt_of_mem hpart

theorem references_segments (t : Template) : t.segments.flatMap Segment.references = t.references := by
  cases t with
  | literal s =>
    rw [segments]
    split <;> rfl
  | single e => exact List.append_nil _
  | composite segments => rfl

/-- **Every reference of a parsed template is well formed.** -/
theorem defect?_of_parse {source : String} (r : Reference) (hr : r ∈ (parse source).references) :
    r.defect? = none := by
  rw [← references_segments] at hr
  obtain ⟨segment, hsegment, hr⟩ := List.mem_flatMap.1 hr
  cases segment with
  | text s => cases hr
  | code e =>
    obtain ⟨c, hparse⟩ := exists_parseAt_of_mem hsegment
    exact (Expr.bounds_of_parseAt hparse).1 r hr

end Template

theorem result_render (env : Environment) (source : String) :
    (render env source).result = (evaluate env (Template.parse source)).result := rfl

theorem result_render_eq_value (env : Environment) (source : String) :
    (render env source).result = .ok ((Template.parse source).value env) := by
  rw [result_render]
  exact result_evaluate env Template.defect?_of_parse

/-- **Rendering never fails**: every reference of the template is well formed, and whatever the environment answers
the result is the value of the template. -/
theorem render_eq_ok (env : Environment) (source : String) :
    (Template.parse source).references.filterMap Reference.defect? = [] ∧
    (render env source).result = .ok ((Template.parse source).value env) := by
  constructor
  · rw [List.filterMap_eq_nil_iff]
    exact Template.defect?_of_parse
  · exact result_render_eq_value env source

end PropertyExpr
