import Mathlib.Data.String.Basic
import PropertyExpr.Json.Reader
import PropertyExpr.OrderedMap
/-!
# Values with their fields in order

Whatever a value is read from, its fields come in the order of their keys (`ordered_of_ofText?`), since `Json.sorted`
brings them there. Of fields in that order there is only one list for what is found under each key
(`eq_of_field?_eq`), so values that are written in different orders can be told apart, or not, by their sorted forms.
-/
namespace PropertyExpr.Json

mutual
/-- The fields of every object come in the order of their keys, each key once. -/
def Ordered : Json → Prop
  | array items => OrderedItems items
  | object fields => (fields.map Prod.fst).Pairwise (· < ·) ∧ OrderedFields fields
  | _ => True
def OrderedItems : List Json → Prop
  | [] => True
  | j :: items => j.Ordered ∧ OrderedItems items
def OrderedFields : List (String × Json) → Prop
  | [] => True
  | (_, j) :: fields => j.Ordered ∧ OrderedFields fields
end

section
variable {key k : String} {value j : Json} {fields fields' : List (String × Json)}

/-! ## Sorting -/

theorem mem_keys_insertField (h : k ∈ (insertField key value fields).map Prod.fst) :
    k = key ∨ k ∈ fields.map Prod.fst := by
  fun_induction insertField key value fields with
  | case1 => simpa using h
  | case2 k' v fields hlt => simpa using h
  | case3 v fields => exact .inr h
  | case4 k' v fields hlt hne ih =>
    rw [List.map_cons, List.mem_cons] at h ⊢
    rcases h with rfl | h
    · exact .inr (.inl rfl)
    · rcases ih h with rfl | h
      · exact .inl rfl
      · exact .inr (.inr h)

theorem pairwise_insertField (h : (fields.map Prod.fst).Pairwise (· < ·)) :
    ((insertField key value fields).map Prod.fst).Pairwise (· < ·) := by
  fun_induction insertField key value fields with
  | case1 => exact List.pairwise_singleton _ _
  | case2 k' v fields hlt =>
    refine List.pairwise_cons.2 ⟨?_, h⟩
    intro a ha
    rcases List.mem_cons.1 ha with rfl | ha
    · exact hlt
    · exact lt_trans hlt ((List.pairwise_cons.1 h).1 a ha)
  | case3 v fields => exact h
  | case4 k' v fields hlt hne ih =>
    obtain ⟨hfirst, hrest⟩ := List.pairwise_cons.1 h
    refine List.pairwise_cons.2 ⟨?_, ih hrest⟩
    intro a ha
    rcases mem_keys_insertField ha with rfl | ha
    · exact lt_of_le_of_ne (not_lt.1 hlt) (Ne.symm hne)
    · exact hfirst a ha

theorem orderedFields_insertField (hvalue : value.Ordered) (h : OrderedFields fields) :
    OrderedFields (insertField key value fields) := by
  fun_induction insertField key value fields with
  | case1 => exact ⟨hvalue, trivial⟩
  | case2 k' v fields hlt => exact ⟨hvalue, h⟩
  | case3 v fields => exact h
  | case4 k' v fields hlt hne ih => exact ⟨h.1, ih h.2⟩

end

mutual
/-- Sorting brings the fields of a value in order. -/
theorem ordered_sorted : (j : Json) → j.sorted.Ordered
  | null | bool _ | int _ | float _ | string _ => trivial
  | array items => orderedItems_sorted items
  | object fields => orderedFields_sorted fields
theorem orderedItems_sorted : (items : List Json) → OrderedItems (sortedItems items)
  | [] => trivial
  | j :: items => ⟨ordered_sorted j, orderedItems_sorted items⟩
theorem orderedFields_sorted : (fields : List (String × Json)) →
    ((sortedFields fields).map Prod.fst).Pairwise (· < ·) ∧ OrderedFields (sortedFields fields)
  | [] => ⟨.nil, trivial⟩
  | (_, j) :: fields =>
    have hrest := orderedFields_sorted fields
    ⟨pairwise_insertField hrest.1, orderedFields_insertField (ordered_sorted j) hrest.2⟩
end

/-- **The fields of a value that is read from a text are in order.** -/
theorem ordered_of_ofText? {s : String} {j : Json} (h : ofText? s = some j) : j.Ordered := by
  obtain ⟨value, -, rfl⟩ := Option.map_eq_some_iff.1 h
  exact ordered_sorted value

section
variable {key k : String} {value j : Json} {fields fields' : List (String × Json)}

/-! ## Looking fields up -/

theorem field?_cons (key k : String) (value : Json) (fields : List (String × Json)) :
    field? ((key, value) :: fields) k = if k = key then some value else field? fields k :=
  OrderedMap.lookup_cons_eq_ite key k value fields

theorem OrderedFields.of_field? (h : OrderedFields fields) (hfield : field? fields key = some j) : j.Ordered := by
  induction fields with
  | nil => cases hfield
  | cons f fields ih =>
    obtain ⟨k, v⟩ := f
    rw [field?_cons] at hfield
    split at hfield
    · cases hfield
      exact h.1
    · exact ih h.2 hfield

theorem field?_eq_none (h : k ∉ fields.map Prod.fst) : field? fields k = none := by
  induction fields with
  | nil => rfl
  | cons f fields ih =>
    obtain ⟨key, v⟩ := f
    rw [List.map_cons, List.mem_cons, not_or] at h
    rw [field?_cons, if_neg h.1, ih h.2]

/-- A key that comes before all others is found nowhere. -/
theorem field?_eq_none_of_lt (h : ∀ a ∈ fields.map Prod.fst, k < a) : field? fields k = none :=
  field?_eq_none fun hmem => lt_irrefl k (h k hmem)

/-- **Fields in order are settled by what is found under each key.** -/
theorem eq_of_field?_eq (h : (fields.map Prod.fst).Pairwise (· < ·)) (h' : (fields'.map Prod.fst).Pairwise (· < ·))
    (hfields : ∀ k, field? fields k = field? fields' k) : fields = fields' := by
  induction fields generalizing fields' with
  | nil =>
    cases fields' with
    | nil => rfl
    | cons f' fields' =>
      have h := (hfields f'.1).trans ((field?_cons f'.1 f'.1 f'.2 fields').trans (if_pos rfl))
      cases h
  | cons f fields ih =>
    obtain ⟨key, value⟩ := f
    cases fields' with
    | nil =>
      have h := ((field?_cons key key value fields).trans (if_pos rfl)).symm.trans (hfields key)
      cases h
    | cons f' fields' =>
      obtain ⟨key', value'⟩ := f'
      obtain ⟨hfirst, hrest⟩ := List.pairwise_cons.1 h
      obtain ⟨hfirst', hrest'⟩ := List.pairwise_cons.1 h'
      rcases lt_trichotomy key key' with hlt | rfl | hlt
      · -- the smaller key is in one list only
        have hnone : field? ((key', value') :: fields') key = none := by
          rw [field?_cons, if_neg (ne_of_lt hlt), field?_eq_none_of_lt fun a ha => lt_trans hlt (hfirst' a ha)]
        simpa [field?_cons] using (hfields key).trans hnone
      · have hvalue : some value = some value' := by simpa [field?_cons] using hfields key
        cases hvalue
        have htail : fields = fields' := by
          refine ih hrest hrest' fun k => ?_
          by_cases hk : k = key
          · rw [hk, field?_eq_none_of_lt hfirst, field?_eq_none_of_lt hfirst']
          · simpa [field?_cons, hk] using hfields k
        rw [htail]
      · have hnone : field? ((key, value) :: fields) key' = none := by
          rw [field?_cons, if_neg (ne_of_lt hlt), field?_eq_none_of_lt fun a ha => lt_trans hlt (hfirst a ha)]
        simpa [field?_cons] using hnone.symm.trans (hfields key')

end

end PropertyExpr.Json
