import Mathlib.Logic.Relation
import PropertyExpr.Environment.Table
import PropertyExpr.Proofs.Stopping
/-!
# What a result does not depend on

`result_indifferent` — of an environment, the result of a template sees only what its references find: a number or a
text, or nothing (`Unrendered`). Why nothing was found is not seen, nor are sources and fields that the template does not mention, nor
their order, nor whether a table or a host function answers.

Two runs are compared through their values (`Expr.value_congr`): where both environments are asked for the same
references one after the other and both find the same, the values are the same, and so they go on alike.
-/
namespace PropertyExpr

/-! ## What is found -/

/-- What an answer gives to a template: a number, a text, or nothing. -/
def Rendered.found? : Except LookupError Value → Option Rendered
  | .ok (.int n) => some (.number (Float.ofInt n.toInt))
  | .ok (.float x) => some (.number x)
  | .ok (.string s) => some (.string s)
  | .ok .null | .ok (.bool _) | .ok (.array _) | .ok (.object _) | .error _ => none

namespace Rendered

theorem found?_ok (value : Value) : found? (.ok value) = value.render? := by
  cases value <;> rfl

theorem found?_eq_none_iff {answer : Except LookupError Value} : found? answer = none ↔ Unrendered answer := by
  cases answer with
  | ok value => rw [found?_ok, Value.render?_eq_none_iff]
  | error error => exact ⟨fun _ => .failed error, fun _ => rfl⟩

theorem ofAnswer_eq_getD (answer : Except LookupError Value) : ofAnswer answer = (found? answer).getD .empty := by
  cases answer with
  | ok value => rw [found?_ok, ofAnswer]
  | error => rfl

end Rendered

/-- Asked for references one after the other, behind those in `asked`, two environments find the same. -/
def FindAlike (env₁ env₂ : Environment) (asked refs : List Reference) : Prop :=
  ∀ before r after, refs = before ++ r :: after →
    Rendered.found? (env₁.answer (before.reverse ++ asked) r) = Rendered.found? (env₂.answer (before.reverse ++ asked) r)

section
variable {env₁ env₂ : Environment} {asked : List Reference}

theorem FindAlike.left {as bs : List Reference} (h : FindAlike env₁ env₂ asked (as ++ bs)) :
    FindAlike env₁ env₂ asked as := by
  rintro before r after rfl
  exact h before r (after ++ bs) (List.append_assoc _ _ _)

theorem FindAlike.right {as bs : List Reference} (h : FindAlike env₁ env₂ asked (as ++ bs)) :
    FindAlike env₁ env₂ (as.reverse ++ asked) bs := by
  rintro before r after rfl
  have hbehind := h (as ++ before) r after (List.append_assoc _ _ _).symm
  rwa [List.reverse_append, List.append_assoc] at hbehind

theorem Expr.value_congr (e : Expr) (h : FindAlike env₁ env₂ asked e.references) :
    e.value env₁ asked = e.value env₂ asked := by
  induction e generalizing asked with
  | number n => rfl
  | string s => rfl
  | ref r =>
    have hfound := h [] r [] rfl
    rw [List.reverse_nil, List.nil_append] at hfound
    rw [value, value, Rendered.ofAnswer_eq_getD, Rendered.ofAnswer_eq_getD, hfound]
  | binary op left right ihl ihr =>
    rw [references] at h
    rw [value, value, ihl h.left, ihr h.right]

theorem Segment.values_congr (segments : List Segment)
    (h : FindAlike env₁ env₂ asked (segments.flatMap Segment.references)) :
    Segment.values env₁ asked segments = Segment.values env₂ asked segments := by
  induction segments generalizing asked with
  | nil => rfl
  | cons segment segments ih =>
    rw [List.flatMap_cons] at h
    have hfirst : segment.value env₁ asked = segment.value env₂ asked := by
      cases segment with
      | text s => rfl
      | code e => exact congrArg Rendered.text (e.value_congr h.left)
    rw [Segment.values, Segment.values, hfirst, ih h.right]

theorem Template.value_congr (t : Template) (h : FindAlike env₁ env₂ [] t.references) :
    t.value env₁ = t.value env₂ := by
  cases t with
  | literal s => rfl
  | single e => exact e.value_congr h
  | composite segments => rw [Template.value, Template.value, Segment.values_congr segments h]

/-- Environments that find the same for the references of a template give it the same result. -/
theorem result_congr {t : Template} (h : FindAlike env₁ env₂ [] t.references) :
    (evaluate env₁ t).result = (evaluate env₂ t).result := by
  rcases exists_first_defect t.references with hall | ⟨before, r, after, d, hrefs, hbefore, hr⟩
  · rw [result_evaluate env₁ hall, result_evaluate env₂ hall, t.value_congr h]
  · rw [(evaluate_of_defect env₁ hrefs hbefore hr).1, (evaluate_of_defect env₂ hrefs hbefore hr).1]

end

/-! ## Misses -/

/-- The environment with what `miss` says in the place of every answer that does not render. -/
def Environment.withMisses (env : Environment) (miss : List Reference → Reference → Except LookupError Value) :
    Environment where
  answer asked r := if (Rendered.found? (env.answer asked r)).isNone then miss asked r else env.answer asked r

theorem findAlike_withMisses (env : Environment) {miss : List Reference → Reference → Except LookupError Value}
    (hmiss : ∀ asked r, Unrendered (miss asked r)) (asked refs : List Reference) :
    FindAlike (env.withMisses miss) env asked refs := by
  intro before r after _
  simp only [Environment.withMisses]
  split
  · rename_i hnone
    rw [Rendered.found?_eq_none_iff.2 (hmiss _ _), Option.isNone_iff_eq_none.1 hnone]
  · rfl

/-! ## Edits of a table -/

/-- A change to a row that leaves the fields of which `Mentioned` holds. -/
inductive Row.Edit (Mentioned : String → Prop) : Row → Row → Prop where
  /-- Another field is added or replaced. -/
  | insert (row : Row) (field : String) (value : Value) (unmentioned : ¬ Mentioned field) :
    Edit Mentioned row (OrderedMap.insert row field value)
  | reorder {row row' : Row} (perm : row.entries.Perm row'.entries) : Edit Mentioned row row'

/-- A change to a table that leaves the sources and fields that `refs` mention. -/
inductive Table.Edit (refs : List Reference) : Table → Table → Prop where
  /-- Another source is added or replaced. -/
  | insert (t : Table) (name : String) (rows : List Row) (unmentioned : ∀ r ∈ refs, r.name ≠ name) :
    Edit refs t (t.insert name rows)
  | reorder {t t' : Table} (perm : t.sources.entries.Perm t'.sources.entries) : Edit refs t t'
  /-- A row is changed in fields that are not mentioned for its rank. -/
  | row {t : Table} {name : String} {rows : List Row} {i : Nat} {row row' : Row} (source : t.rows? name = some rows)
    (place : rows[i]? = some row)
    (edit : Row.Edit (fun field => ∃ r ∈ refs, r.name = name ∧ r.rank.toInt = i + 1 ∧ r.field = field) row row') :
    Edit refs t (t.insert name (rows.set i row'))

theorem Row.Edit.get?_eq {Mentioned : String → Prop} {row row' : Row} (h : Row.Edit Mentioned row row')
    {field : String} (hfield : Mentioned field) : row'.get? field = row.get? field := by
  cases h with
  | insert field' value unmentioned =>
    have hne : field ≠ field' := fun e => unmentioned (e ▸ hfield)
    rw [OrderedMap.get?_insert, if_neg hne]
  | reorder perm => exact (OrderedMap.get?_of_perm perm field).symm

theorem Table.rows?_insert (t : Table) (name name' : String) (rows : List Row) :
    (t.insert name rows).rows? name' = if name' = name then some rows else t.rows? name' :=
  OrderedMap.get?_insert t.sources name name' rows

/-- Looking a reference up sees of a table only the rows of the source. -/
theorem Table.lookup_congr {t t' : Table} {r : Reference} (h : t'.rows? r.name = t.rows? r.name) :
    t'.lookup r = t.lookup r := by
  rw [lookup, lookup, h]

theorem Table.row?_of_rank {rank : Int64} {i : Nat} (h : rank.toInt = i + 1) (rows : List Row) :
    row? rows rank = rows[i]? := by
  have hindex : (rank.toInt - 1).toNat = i := by omega
  rw [row?, if_pos (by omega), hindex]

theorem Table.row?_set_of_ne {rank : Int64} {i : Nat} (h : rank.toInt ≠ i + 1) (rows : List Row) (row' : Row) :
    row? (rows.set i row') rank = row? rows rank := by
  rw [row?, row?]
  split
  · have hindex : i ≠ (rank.toInt - 1).toNat := by omega
    rw [List.getElem?_set_ne hindex]
  · rfl

/-- **An edit does not change what the references find**, nor why they find nothing. -/
theorem Table.Edit.lookup_eq {refs : List Reference} {t t' : Table} (h : Table.Edit refs t t') {r : Reference}
    (hr : r ∈ refs) : t'.lookup r = t.lookup r := by
  cases h with
  | insert name rows unmentioned =>
    apply Table.lookup_congr
    rw [Table.rows?_insert, if_neg (unmentioned r hr)]
  | reorder perm => exact Table.lookup_congr (OrderedMap.get?_of_perm perm r.name).symm
  | @row name rows i row row' source place edit =>
    by_cases hname : r.name = name
    · have hrows : (t.insert name (rows.set i row')).rows? r.name = some (rows.set i row') := by
        rw [Table.rows?_insert, if_pos hname]
      rw [← hname] at source
      rw [Table.lookup, Table.lookup, hrows, source]
      by_cases hrank : r.rank.toInt = i + 1
      · -- the row that is changed: the field that is looked up is mentioned
        have hlt : i < rows.length := (List.getElem?_eq_some_iff.1 place).1
        have hfield : row'.get? r.field = row.get? r.field := edit.get?_eq ⟨r, hr, hname, hrank, rfl⟩
        simp only [Table.row?_of_rank hrank, List.getElem?_set_self hlt, place, hfield]
      · simp only [Table.row?_set_of_ne hrank, List.length_set]
    · apply Table.lookup_congr
      rw [Table.rows?_insert, if_neg hname]

/-- The same goes for edits one after the other. -/
theorem Table.lookup_eq_of_edits {refs : List Reference} {t t' : Table}
    (h : Relation.ReflTransGen (Table.Edit refs) t t') {r : Reference} (hr : r ∈ refs) : t'.lookup r = t.lookup r := by
  induction h with
  | refl => rfl
  | tail _ edit ih => rw [edit.lookup_eq hr, ih]

/-! ## Results -/

/-- What the result of a template does not depend on. -/
structure Indifferent (t : Template) : Prop where
  /-- Anything but what is found for its references. -/
  answers : ∀ env₁ env₂, FindAlike env₁ env₂ [] t.references → (evaluate env₁ t).result = (evaluate env₂ t).result
  /-- Why nothing is found. -/
  misses : ∀ (env : Environment) (miss : List Reference → Reference → Except LookupError Value),
    (∀ asked r, Unrendered (miss asked r)) →
      (evaluate (env.withMisses miss) t).result = (evaluate env t).result
  /-- Sources and fields that it does not mention, and the order of any. -/
  edits : ∀ a b : Table, Relation.ReflTransGen (Table.Edit t.references) a b →
    (evaluate b.environment t).result = (evaluate a.environment t).result
  /-- Whether a table answers or a host function that asks the table. -/
  forwarding : ∀ (table : Table) (env : Environment),
    (∀ asked, ∀ r ∈ t.references, env.answer asked r = table.lookup r) →
      (evaluate env t).result = (evaluate table.environment t).result

/-- **A result depends on what the references find** and on nothing else. -/
theorem result_indifferent (t : Template) : Indifferent t where
  answers _ _ := result_congr
  misses env _ hmiss := result_congr (findAlike_withMisses env hmiss [] t.references)
  edits a b h := by
    apply result_congr
    intro before r after hrefs
    have hr : r ∈ t.references := by simp [hrefs]
    exact congrArg Rendered.found? (Table.lookup_eq_of_edits h hr)
  forwarding table env h := by
    apply result_congr
    intro before r after hrefs
    exact congrArg Rendered.found? (h _ r (by simp [hrefs]))

/-- A source and a field that the template does not mention make no difference. -/
theorem result_edited :
    (evaluate (((Table.empty.insert "a" [OrderedMap.empty.insert "x" (.string "found")]).insert "b" []).insert "a"
      [(OrderedMap.empty.insert "x" (.string "found")).insert "y" .null]).environment
      (.single (.ref ⟨"a", 1, "x"⟩))).result = .ok (.string "found") := by
  let before := Table.empty.insert "a" [OrderedMap.empty.insert "x" (.string "found")]
  have hsource : Table.Edit [⟨"a", 1, "x"⟩] before (before.insert "b" []) :=
    .insert before "b" [] (by simp)
  have hfield : Table.Edit [⟨"a", 1, "x"⟩] (before.insert "b" [])
      ((before.insert "b" []).insert "a"
        ([OrderedMap.empty.insert "x" (.string "found")].set 0
          ((OrderedMap.empty.insert "x" (.string "found")).insert "y" .null))) :=
    .row rfl rfl (.insert _ "y" .null (by simp))
  have hsame := (result_indifferent (.single (.ref ⟨"a", 1, "x"⟩))).edits before _
    ((Relation.ReflTransGen.single hsource).tail hfield)
  exact hsame.trans rfl

end PropertyExpr
