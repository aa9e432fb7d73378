import PropertyExpr.Evaluation
import PropertyExpr.Proofs.JsonReading
/-!
# Templates by way of JSON text

`json_forms_agree` — the form in which a tree is written, the sorted form and the tree that is read are in step.
`ofText?_printed` — a template that is printed as JSON text is read back as its sorted form, if no more arrays and
objects are open in the text than the reader allows, and is refused otherwise. `evaluateJson_toJson` — the sorted
form evaluates to what the template does. It is not read as quite the template: a block that is a string by itself
becomes text (`Template.readBack`).
-/
namespace PropertyExpr

/-! ## Trees -/

namespace Expr

/-- How many objects are open at once in the JSON form of a tree. -/
def levels : Expr → Nat
  | number _ | string _ => 0
  | ref _ => 1
  | binary _ left right => max left.levels right.levels + 1

theorem written_whole (e : Expr) : e.written.Whole := by
  induction e with
  | number n => exact Json.whole_toInt n
  | string s => trivial
  | ref r => exact ⟨trivial, trivial, Json.whole_toInt r.rank, trivial, trivial⟩
  | binary op left right ihl ihr => exact ⟨trivial, ihl, ihr, trivial⟩

theorem levels_written (e : Expr) : e.written.levels = e.levels := by
  induction e with
  | number n => rfl
  | string s => rfl
  | ref r => rfl
  | binary op left right ihl ihr =>
    simp only [written, Json.levels, Json.levelsOfFields, ihl, ihr, levels]
    omega

theorem sorted_written (e : Expr) : e.written.sorted = e.toJson := by
  have hkeys : ¬ "rank" < "field" ∧ ¬ "name" < "field" ∧ "name" < "rank" ∧ ¬ "type" < "field" ∧
      ¬ "type" < "name" ∧ ¬ "type" < "rank" ∧ "left" < "right" ∧ ¬ "type" < "left" ∧
      ¬ "type" < "right" := by decide
  induction e with
  | number n => rfl
  | string s => rfl
  | ref r =>
    simp [written, toJson, Reference.written, Reference.toJson, Json.sorted, Json.sortedFields, Json.insertField, hkeys]
  | binary op left right ihl ihr =>
    simp [written, toJson, Json.sorted, Json.sortedFields, Json.insertField, ihl, ihr, hkeys]

theorem ofSymbol?_symbol (op : Operator) : Operator.ofSymbol? op.symbol = some op := by
  cases op <;> rfl

/-- The sorted form of a tree is read as the tree. -/
theorem ofJson_toJson (e : Expr) : ofJson e.toJson = .ok e := by
  induction e with
  | number n => simp only [toJson, ofJson, Json.int64?, Number.int64?_toInt]
  | string s => rfl
  | ref r =>
    have hrank : (Json.int r.rank.toInt).int64? = some r.rank := Number.int64?_toInt r.rank
    simp [toJson, Reference.toJson, ofJson, tag, referenceOfFields, Json.field?, List.lookup_cons, Json.string?, hrank]
  | binary op left right ihl ihr =>
    have htag : op.symbol ≠ "ref" := by cases op <;> decide
    simp [toJson, ofJson, tag, operand, Json.field?, List.lookup_cons, Json.string?, htag, ofSymbol?_symbol, ihl, ihr]

end Expr

/-! ## Segments -/

namespace Segment

def levels : Segment → Nat
  | text _ => 0
  | code e => e.levels

/-- A segment as it is read back: a string by itself is text. -/
def readBack : Segment → Segment
  | code (.string s) => text s
  | segment => segment

theorem written_whole (segment : Segment) : segment.written.Whole := by
  cases segment with
  | text s => trivial
  | code e => exact e.written_whole

theorem levels_written (segment : Segment) : segment.written.levels = segment.levels := by
  cases segment with
  | text s => rfl
  | code e => exact e.levels_written

theorem sorted_written (segment : Segment) : segment.written.sorted = segment.toJson := by
  cases segment with
  | text s => rfl
  | code e => exact e.sorted_written

theorem ofJson_toJson (segment : Segment) : ofJson segment.toJson = .ok segment.readBack := by
  cases segment with
  | text s => rfl
  | code e =>
    have he := e.ofJson_toJson
    cases e with
    | string s => rfl
    | _ => exact congrArg (Except.map Segment.code) he

end Segment

/-! ## Templates -/

namespace Template

/-- How many arrays and objects are open at once in the JSON form of a template. -/
def levels : Template → Nat
  | literal _ => 0
  | single e => e.levels
  | composite segments => (segments.map Segment.levels).foldr max 0 + 1

/-- A template as it is read back. -/
def readBack : Template → Template
  | single (.string s) => literal s
  | composite segments => composite (segments.map Segment.readBack)
  | t => t

theorem wholeItems_written (segments : List Segment) : Json.WholeItems (segments.map Segment.written) := by
  induction segments with
  | nil => trivial
  | cons segment segments ih => exact ⟨segment.written_whole, ih⟩

theorem written_whole (t : Template) : t.written.Whole := by
  cases t with
  | literal s => trivial
  | single e => exact e.written_whole
  | composite segments => exact wholeItems_written segments

theorem levelsOfItems_written (segments : List Segment) :
    Json.levelsOfItems (segments.map Segment.written) = (segments.map Segment.levels).foldr max 0 := by
  induction segments with
  | nil => rfl
  | cons segment segments ih =>
    rw [List.map_cons, Json.levelsOfItems, segment.levels_written, ih, List.map_cons, List.foldr_cons]

theorem levels_written (t : Template) : t.written.levels = t.levels := by
  cases t with
  | literal s => rfl
  | single e => exact e.levels_written
  | composite segments => exact congrArg (· + 1) (levelsOfItems_written segments)

theorem sortedItems_written (segments : List Segment) :
    Json.sortedItems (segments.map Segment.written) = segments.map Segment.toJson := by
  induction segments with
  | nil => rfl
  | cons segment segments ih =>
    rw [List.map_cons, Json.sortedItems, segment.sorted_written, ih, List.map_cons]

theorem sorted_written (t : Template) : t.written.sorted = t.toJson := by
  cases t with
  | literal s => rfl
  | single e => exact e.sorted_written
  | composite segments => exact congrArg Json.array (sortedItems_written segments)

theorem segmentsOfJson_toJson (segments : List Segment) :
    segmentsOfJson (segments.map Segment.toJson) = .ok (segments.map Segment.readBack) := by
  induction segments with
  | nil => rfl
  | cons segment segments ih =>
    rw [List.map_cons, segmentsOfJson, segment.ofJson_toJson]
    simp only [ih, List.map_cons]

/-- The sorted form of a template is read as the template, but for strings that become text. -/
theorem ofJson_toJson (t : Template) : ofJson t.toJson = .ok t.readBack := by
  cases t with
  | literal s => rfl
  | single e =>
    have he := e.ofJson_toJson
    cases e with
    | string s => rfl
    | _ => exact congrArg (Except.map Template.single) he
  | composite segments => exact congrArg (Except.map Template.composite) (segmentsOfJson_toJson segments)

end Template

/-! ## Evaluation -/

section
variable (env : Environment)

theorem Evaluation.segment_readBack (segment : Segment) :
    Evaluation.segment env segment.readBack = Evaluation.segment env segment := by
  cases segment with
  | text s => rfl
  | code e => cases e <;> rfl

theorem Evaluation.segments_readBack (segments : List Segment) :
    Evaluation.segments env (segments.map Segment.readBack) = Evaluation.segments env segments := by
  induction segments with
  | nil => rfl
  | cons segment segments ih =>
    rw [List.map_cons, Evaluation.segments, Evaluation.segments, Evaluation.segment_readBack, ih]

/-- Strings that become text evaluate to the same, and nothing else is asked or logged for them. -/
theorem evaluate_readBack (t : Template) : evaluate env t.readBack = evaluate env t := by
  cases t with
  | literal s => rfl
  | single e => cases e <;> rfl
  | composite segments =>
    rw [evaluate, evaluate, Template.readBack, Evaluation.template, Evaluation.template,
      Evaluation.segments_readBack]

theorem evaluateJson_toJson (t : Template) : evaluateJson env t.toJson = evaluate env t := by
  rw [evaluateJson, Template.ofJson_toJson]
  exact evaluate_readBack env t

/-- The JSON text of a template, as it is printed. -/
def Template.printed (t : Template) : String := String.ofList t.written.pretty ++ "\n"

theorem ofText?_printed (t : Template) :
    Json.ofText? t.printed = if t.levels ≤ Json.maxDepth then some t.toJson else none := by
  rw [Template.printed, Json.ofText?_pretty _ t.written_whole, t.levels_written, t.sorted_written]

end

/-! ## The three forms -/

/-- **The forms of a tree are in step**: what is written is, with its keys in order, the sorted form; an expression is
read back from it, and a template is read back but for strings that become text; and evaluating the sorted form gives
the outcome of the template, with all that is asked for on the way. -/
theorem json_forms_agree :
    (∀ e : Expr, e.written.sorted = e.toJson) ∧ (∀ t : Template, t.written.sorted = t.toJson) ∧
    (∀ e : Expr, Expr.ofJson e.toJson = .ok e) ∧ (∀ t : Template, Template.ofJson t.toJson = .ok t.readBack) ∧
    (∀ env t, evaluateJson env t.toJson = evaluate env t) :=
  ⟨Expr.sorted_written, Template.sorted_written, Expr.ofJson_toJson, Template.ofJson_toJson, evaluateJson_toJson⟩

end PropertyExpr
