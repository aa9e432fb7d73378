import PropertyExpr.Proofs.Indifference
import PropertyExpr.Proofs.NotNaN
/-!
# Query tables, step by step

A host fills a table by inserting sources one after the other. `stores_run` says what the table is after any steps: its
names, with those that are new in the order in which they came first, its rows, which are those that came last, and what
it answers. Two tables that were filled in different orders answer alike and are equal if they have the same sources in
the end, with fields in whatever order.

What one step changes is said first (`names_apply`, `rows?_apply`), and by induction what all of them do.
-/
namespace PropertyExpr

/-! ## Values that equal themselves -/

mutual
/-- There is no NaN in a value, and the objects in it are maps: no two fields have the same key. -/
def Value.NaNFree : Value → Prop
  | .float x => x.isNaN = false
  | .array items => NaNFreeItems items
  | .object fields => (fields.map Prod.fst).Nodup ∧ NaNFreeFields fields
  | _ => True
def Value.NaNFreeItems : List Value → Prop
  | [] => True
  | v :: items => v.NaNFree ∧ NaNFreeItems items
def Value.NaNFreeFields : List (String × Value) → Prop
  | [] => True
  | (_, v) :: fields => v.NaNFree ∧ NaNFreeFields fields
end

open Float.Model.UnpackedFloat in
/-- A NaN is the only double that does not equal itself. -/
theorem beq_self_of_isNaN_eq_false {x : Float} (h : x.isNaN = false) : x == x := by
  show x.toModel.unpack.beq x.toModel.unpack = true
  rw [isNaN_eq_false_iff] at h
  exact (beq_iff_ne_notANumber_and_eq _ _).2 ⟨h, h, .inl rfl⟩

mutual
theorem Value.equal_self : (v : Value) → v.NaNFree → v.equal v = true
  | .null, _ => rfl
  | .bool b, _ => beq_self_eq_true b
  | .int i, _ => beq_self_eq_true i
  | .float _, h => beq_self_of_isNaN_eq_false h
  | .string s, _ => beq_self_eq_true s
  | .array items, h => equalItems_self items h
  | .object fields, h => by
    have hlookup : ∀ key v, (key, v) ∈ fields → fields.lookup key = some v := fun _ _ =>
      (OrderedMap.lookup_eq_some_iff h.1).2
    rw [equal, beq_self_eq_true, containedFields_self fields h.2 fields hlookup]
    rfl
theorem Value.equalItems_self : (items : List Value) → NaNFreeItems items → equalItems items items = true
  | [], _ => rfl
  | v :: items, h => by
    rw [equalItems, v.equal_self h.1, equalItems_self items h.2]
    rfl
/-- Fields are contained where each of them is found under its key. -/
theorem Value.containedFields_self : (fields : List (String × Value)) → NaNFreeFields fields →
    (all : List (String × Value)) → (∀ key v, (key, v) ∈ fields → all.lookup key = some v) →
    containedFields fields all = true
  | [], _, _, _ => rfl
  | (key, v) :: fields, h, all, hlookup => by
    have hrest : ∀ key v, (key, v) ∈ fields → all.lookup key = some v := fun key v hmem =>
      hlookup key v (List.mem_cons_of_mem _ hmem)
    rw [containedFields, hlookup key v List.mem_cons_self, containedFields_self fields h.2 all hrest]
    simp only [v.equal_self h.1, Bool.and_self]
end

/-- The same fields in whatever order. -/
def Row.SameFields (row row' : Row) : Prop := row.entries.Perm row'.entries

namespace Table

/-! ## Looking up -/

/-- Where in the rows a rank points, in checked arithmetic: one less, where that is in range and not negative. -/
def index? (rank : Int64) : Option Nat :=
  (Number.int64? (rank.toInt - 1)).bind fun i => if 0 ≤ i.toInt then some i.toInt.toNat else none

/-- What looking `r` up answers, by what the table holds. -/
inductive Answers (t : Table) (r : Reference) : Except LookupError Value → Prop where
  | unknownSource (source : t.rows? r.name = none) : Answers t r (.error (.unknownSource r.name))
  | rankOutOfRange {rows : List Row} (source : t.rows? r.name = some rows)
      (rank : r.rank.toInt < 1 ∨ rows.length < r.rank.toInt) :
      Answers t r (.error (.rankOutOfRange r.name r.rank rows.length))
  | missingField {rows : List Row} {row : Row} {i : Nat} (source : t.rows? r.name = some rows)
      (rank : r.rank.toInt = i + 1) (place : rows[i]? = some row) (field : r.field ∉ row.keys) :
      Answers t r (.error (.missingField r.name r.rank r.field))
  | found {rows : List Row} {row : Row} {i : Nat} {value : Value} (source : t.rows? r.name = some rows)
      (rank : r.rank.toInt = i + 1) (place : rows[i]? = some row) (field : (r.field, value) ∈ row.entries) :
      Answers t r (.ok value)

section
variable {rank : Int64} {i : Nat} {rows : List Row} {row : Row}

theorem index?_eq_some_iff : index? rank = some i ↔ rank.toInt = i + 1 := by
  rw [index?, Option.bind_eq_some_iff]
  constructor
  · rintro ⟨j, hj, hindex⟩
    rw [Number.int64?_eq_some_iff] at hj
    split at hindex
    · obtain rfl := Option.some.inj hindex
      omega
    · cases hindex
  · intro h
    have hlower := rank.le_toInt
    have hupper := rank.toInt_lt
    have hbounds : Int64.minValue.toInt ≤ rank.toInt - 1 ∧ rank.toInt - 1 ≤ Int64.maxValue.toInt := by
      have hmin : Int64.minValue.toInt = -9223372036854775808 := by decide
      have hmax : Int64.maxValue.toInt = 9223372036854775807 := by decide
      omega
    refine ⟨Int64.ofInt (rank.toInt - 1), if_pos hbounds, ?_⟩
    have hvalue : (Int64.ofInt (rank.toInt - 1)).toInt = rank.toInt - 1 :=
      Number.int64?_eq_some_iff.1 (if_pos hbounds)
    rw [hvalue, if_pos (by omega)]
    congr 1
    omega

/-- The row of a rank is that to which the rank points, over the whole range of ranks. -/
theorem row?_eq_bind_index? (rows : List Row) (rank : Int64) : row? rows rank = (index? rank).bind (rows[·]?) := by
  cases hindex : index? rank with
  | some i => exact row?_of_rank (index?_eq_some_iff.1 hindex) rows
  | none =>
    rw [row?]
    split
    · rename_i hpositive
      have hsome : index? rank = some (rank.toInt - 1).toNat := index?_eq_some_iff.2 (by omega)
      cases hindex.symm.trans hsome
    · rfl

theorem row?_eq_some_iff : row? rows rank = some row ↔ ∃ i : Nat, rank.toInt = i + 1 ∧ rows[i]? = some row := by
  rw [row?_eq_bind_index?, Option.bind_eq_some_iff]
  simp only [index?_eq_some_iff]

theorem row?_eq_none_iff : row? rows rank = none ↔ rank.toInt < 1 ∨ rows.length < rank.toInt := by
  rw [row?]
  split
  · rw [List.getElem?_eq_none_iff]
    omega
  · exact iff_of_true rfl (.inl (by omega))

theorem answers_lookup (t : Table) (r : Reference) : Answers t r (t.lookup r) := by
  rw [lookup]
  cases hsource : t.rows? r.name with
  | none => exact .unknownSource hsource
  | some rows =>
    simp only
    cases hrow : row? rows r.rank with
    | none => exact .rankOutOfRange hsource (row?_eq_none_iff.1 hrow)
    | some row =>
      obtain ⟨i, hrank, hplace⟩ := row?_eq_some_iff.1 hrow
      simp only
      cases hfield : row.get? r.field with
      | none => exact .missingField hsource hrank hplace (OrderedMap.get?_eq_none_iff.1 hfield)
      | some value => exact .found hsource hrank hplace ((OrderedMap.lookup_eq_some_iff row.nodup).1 hfield)

theorem lookup_of_answers {t : Table} {r : Reference} {answer : Except LookupError Value} (h : Answers t r answer) :
    t.lookup r = answer := by
  cases h with
  | unknownSource source => rw [lookup, source]
  | rankOutOfRange source rank =>
    rw [lookup, source]
    simp only [row?_eq_none_iff.2 rank]
  | missingField source rank place field =>
    rw [lookup, source]
    simp only [row?_eq_some_iff.2 ⟨_, rank, place⟩, OrderedMap.get?_eq_none_iff.2 field]
  | @found rows row i value source rank place field =>
    have hfield : row.get? r.field = some value := (OrderedMap.lookup_eq_some_iff row.nodup).2 field
    rw [lookup, source]
    simp only [row?_eq_some_iff.2 ⟨_, rank, place⟩, hfield]

/-- **What is looked up** is answered by one rule. -/
theorem lookup_eq_iff {t : Table} {r : Reference} {answer : Except LookupError Value} :
    t.lookup r = answer ↔ Answers t r answer := by
  constructor
  · rintro rfl
    exact answers_lookup t r
  · exact lookup_of_answers

end

/-! ## One step -/

/-- What a host does to a table. -/
inductive Step where
  | insert (name : String) (rows : List Row)
  | withSource (name : String) (rows : List Row)

namespace Step

/-- The source that is added or replaced. -/
def name : Step → String
  | .insert name _ | .withSource name _ => name

def rows : Step → List Row
  | .insert _ rows | .withSource _ rows => rows

def apply (t : Table) : Step → Table
  | .insert name rows => t.insert name rows
  | .withSource name rows => t.withSource name rows

theorem apply_eq_insert (t : Table) (s : Step) : s.apply t = t.insert s.name s.rows := by
  cases s <;> rfl

/-- A new name comes last, and no other moves. -/
theorem names_apply (t : Table) (s : Step) :
    (s.apply t).names = if s.name ∈ t.names then t.names else t.names ++ [s.name] := by
  rw [s.apply_eq_insert]
  exact OrderedMap.keys_insert t.sources s.name s.rows

/-- Rows of one source change, and no others. -/
theorem rows?_apply (t : Table) (s : Step) (name : String) :
    (s.apply t).rows? name = if name = s.name then some s.rows else t.rows? name := by
  rw [s.apply_eq_insert, rows?_insert]

end Step

/-! ## Many steps -/

/-- The table after the steps. -/
def run (t : Table) (steps : List Step) : Table := steps.foldl (fun t s => s.apply t) t

section
variable {t t' : Table} {steps steps' : List Step}

theorem run_cons (t : Table) (s : Step) (steps : List Step) : run t (s :: steps) = run (s.apply t) steps := rfl

theorem run_append (t : Table) (steps steps' : List Step) : run t (steps ++ steps') = run (run t steps) steps' :=
  List.foldl_append

/-- **New names come behind those of the start**, in the order in which they came first. -/
theorem names_run (t : Table) (steps : List Step) :
    (run t steps).names = t.names ++ ((steps.map Step.name).filter (· ∉ t.names)).eraseDups := by
  induction steps generalizing t with
  | nil => simp [run]
  | cons s steps ih =>
    rw [run_cons, ih, s.names_apply, List.map_cons]
    split
    · rename_i hmem
      rw [List.filter_cons_of_neg (by simpa using hmem)]
    · rename_i hnew
      -- what comes later is new if it is neither among the names nor the one that came now
      have hlater : (steps.map Step.name).filter (· ∉ t.names ++ [s.name]) =
          ((steps.map Step.name).filter (· ∉ t.names)).filter (fun n => !n == s.name) := by
        rw [List.filter_filter]
        apply List.filter_congr
        intro n _
        simp only [List.mem_append, List.mem_singleton, not_or, Bool.decide_and, decide_not]
        exact Bool.and_comm _ _
      rw [List.filter_cons_of_pos (by simpa using hnew), List.eraseDups_cons, hlater, List.append_assoc]
      rfl

/-- **The rows of a source are those that came last.** -/
theorem rows?_run (t : Table) (steps : List Step) (name : String) : (run t steps).rows? name =
    ((steps.reverse.find? (·.name = name)).map Step.rows).or (t.rows? name) := by
  induction steps generalizing t with
  | nil => rfl
  | cons s steps ih =>
    rw [run_cons, ih, s.rows?_apply, List.reverse_cons, List.find?_append, List.find?_singleton]
    cases steps.reverse.find? (·.name = name) with
    | some s' => rfl
    | none =>
      by_cases hname : name = s.name
      · simp [hname]
      · simp [hname, Ne.symm hname]

/-! ## Tables with the same sources -/

/-- The same sources in whatever order, with the same rows one by one but for the order of their fields. -/
def SameSources (t t' : Table) : Prop :=
  ∀ name, Option.Rel (List.Forall₂ Row.SameFields) (t.rows? name) (t'.rows? name)

/-- There is no NaN in the rows of a table. -/
def NaNFree (t : Table) : Prop :=
  ∀ source ∈ t.sources.entries, ∀ row ∈ source.2, ∀ field ∈ row.entries, field.2.NaNFree

/-- What is under a name has a name. -/
theorem mem_names_iff {name : String} : name ∈ t.names ↔ (t.rows? name).isSome := by
  rw [← not_iff_not, names, ← OrderedMap.get?_eq_none_iff, Option.not_isSome_iff_eq_none]
  rfl

theorem equal_of_sameFields {row row' : Row} (h : row.SameFields row')
    (hvalues : ∀ field ∈ row.entries, field.2.NaNFree) : row.equal Value.equal row' = true := by
  have hsize : row.size = row'.size := List.Perm.length_eq h
  rw [OrderedMap.equal, hsize, beq_self_eq_true, Bool.true_and, List.all_eq_true]
  rintro ⟨key, value⟩ hmem
  have hmem' : (key, value) ∈ row'.entries := (List.Perm.mem_iff h).1 hmem
  have hfound : row'.get? key = some value := (OrderedMap.lookup_eq_some_iff row'.nodup).2 hmem'
  simp only [hfound]
  exact value.equal_self (hvalues _ hmem)

theorem equalRows_of_forall₂ {rows rows' : List Row} (h : List.Forall₂ Row.SameFields rows rows')
    (hvalues : ∀ row ∈ rows, ∀ field ∈ row.entries, field.2.NaNFree) : equalRows rows rows' = true := by
  induction h with
  | nil => rfl
  | cons hrow _ ih =>
    rw [List.forall_mem_cons] at hvalues
    rw [equalRows, equal_of_sameFields hrow hvalues.1, ih hvalues.2]
    rfl

theorem SameSources.rows?_cases (h : SameSources t t') (name : String) :
    (t.rows? name = none ∧ t'.rows? name = none) ∨ ∃ rows rows', t.rows? name = some rows ∧ t'.rows? name = some rows' ∧
      List.Forall₂ Row.SameFields rows rows' := by
  have hrel := h name
  generalize t.rows? name = found, t'.rows? name = found' at hrel
  cases hrel with
  | none => exact .inl ⟨rfl, rfl⟩
  | some hrows => exact .inr ⟨_, _, rfl, rfl, hrows⟩

theorem SameSources.size_eq (h : SameSources t t') : t.sources.size = t'.sources.size := by
  have hmem : ∀ name, name ∈ t.names ↔ name ∈ t'.names := by
    intro name
    rw [mem_names_iff, mem_names_iff]
    rcases h.rows?_cases name with ⟨hsource, hsource'⟩ | ⟨rows, rows', hsource, hsource', -⟩
    · rw [hsource, hsource']
    · rw [hsource, hsource']
      exact Iff.rfl
  have hlength := ((List.perm_ext_iff_of_nodup t.sources.nodup t'.sources.nodup).2 hmem).length_eq
  rwa [List.length_map, List.length_map] at hlength

/-- Tables that are the same up to the order of sources and fields are equal. -/
theorem SameSources.equal (h : SameSources t t') (hvalues : t.NaNFree) : t.equal t' = true := by
  rw [Table.equal, OrderedMap.equal, h.size_eq, beq_self_eq_true, Bool.true_and, List.all_eq_true]
  rintro ⟨name, rows⟩ hmem
  have hsource : t.rows? name = some rows := (OrderedMap.lookup_eq_some_iff t.sources.nodup).2 hmem
  rcases h.rows?_cases name with ⟨hnone, -⟩ | ⟨rows₁, rows', hsome, hsource', hrows⟩
  · cases hsource.symm.trans hnone
  · obtain rfl := Option.some.inj (hsource.symm.trans hsome)
    have hfound : t'.sources.get? name = some rows' := hsource'
    simp only [hfound]
    exact equalRows_of_forall₂ hrows (hvalues _ hmem)

theorem rel_row?_of_forall₂ {R : Row → Row → Prop} {rows rows' : List Row} (h : List.Forall₂ R rows rows')
    (rank : Int64) : Option.Rel R (row? rows rank) (row? rows' rank) := by
  have hplace (i : Nat) : Option.Rel R rows[i]? rows'[i]? := by
    induction h generalizing i with
    | nil => exact .none
    | cons hrow _ ih =>
      cases i with
      | zero => exact .some hrow
      | succ i => exact ih i
  rw [row?, row?]
  split
  · exact hplace _
  · exact .none

/-- They answer every reference alike, NaN or not. -/
theorem SameSources.lookup_eq (h : SameSources t t') (r : Reference) : t'.lookup r = t.lookup r := by
  rw [lookup, lookup]
  rcases h.rows?_cases r.name with ⟨hsource, hsource'⟩ | ⟨rows, rows', hsource, hsource', hrows⟩
  · rw [hsource, hsource']
  · rw [hsource, hsource']
    have hrow := rel_row?_of_forall₂ hrows r.rank
    simp only
    generalize row? rows r.rank = found, row? rows' r.rank = found' at hrow
    cases hrow with
    | none => simp only [hrows.length_eq]
    | some hperm => simp only [OrderedMap.get?_of_perm hperm]

end

/-- What is known of a table after `steps` from `start`. -/
structure Stores (start : Table) (steps : List Step) : Prop where
  nodup : (run start steps).names.Nodup
  /-- The names of the start stay in front, and the new ones come in the order in which they were first inserted. -/
  names : (run start steps).names =
    start.names ++ ((steps.map Step.name).filter (· ∉ start.names)).eraseDups
  /-- More steps move no name. -/
  stay : ∀ more, (run start steps).names <+: (run start (steps ++ more)).names
  /-- The rows of a source are those of the last step that named it, or those of the start. -/
  rows : ∀ name, (run start steps).rows? name =
    ((steps.reverse.find? (·.name = name)).map Step.rows).or (start.rows? name)
  lookup : ∀ r answer, (run start steps).lookup r = answer ↔ Answers (run start steps) r answer
  /-- Any other steps from anywhere that end with the same sources give an equal table, but for NaN. -/
  equal : ∀ start' steps', SameSources (run start steps) (run start' steps') → (run start steps).NaNFree →
    (run start steps).equal (run start' steps')
  /-- They give the same answers. -/
  alike : ∀ start' steps', SameSources (run start steps) (run start' steps') →
    ∀ r, (run start' steps').lookup r = (run start steps).lookup r

/-- **A table by the steps that filled it.** -/
theorem stores_run (start : Table) (steps : List Step) : Stores start steps where
  nodup := (run start steps).sources.nodup
  names := names_run start steps
  stay more := by
    rw [run_append, names_run (run start steps)]
    exact List.prefix_append _ _
  rows := rows?_run start steps
  lookup _ _ := lookup_eq_iff
  equal _ _ h := h.equal
  alike _ _ h := h.lookup_eq

/-- Steps in two orders, one of them with rows that are replaced and fields in another order, give equal tables. -/
theorem stores_inEitherOrder :
    let row : Row := .ofList [("x", .float 0.5), ("y", .null)]
    let row' : Row := .ofList [("y", .null), ("x", .float 0.5)]
    let steps : List Step := [.insert "a" [row], .insert "b" []]
    let steps' : List Step := [.insert "b" [row], .withSource "a" [row'], .insert "b" []]
    SameSources (run .empty steps) (run .empty steps') ∧ (run .empty steps).NaNFree ∧
      (run .empty steps).names ≠ (run .empty steps').names ∧ (run .empty steps).equal (run .empty steps') ∧
      ∀ r, (run .empty steps').lookup r = (run .empty steps).lookup r := by
  intro row row' steps steps'
  have hrows : row.SameFields row' := List.Perm.swap (α := String × Value) ("y", .null) ("x", .float 0.5) []
  have hsame : SameSources (run .empty steps) (run .empty steps') := by
    intro name
    rw [rows?_run, rows?_run]
    by_cases ha : name = "a"
    · subst ha
      exact .some (.cons hrows .nil)
    · by_cases hb : name = "b"
      · subst hb
        exact .some .nil
      · have hnone : rows? .empty name = none := rfl
        simp [steps, steps', Step.name, Ne.symm ha, Ne.symm hb, hnone]
  have hvalues : (run .empty steps).NaNFree := by
    show ∀ source ∈ [("a", [row]), ("b", [])], ∀ row ∈ source.2, ∀ field ∈ row.entries, field.2.NaNFree
    have hx : (0.5 : Float).isNaN = false := by rfl
    have hrow : ∀ field ∈ row.entries, field.2.NaNFree :=
      List.forall_mem_cons.2 ⟨hx, List.forall_mem_cons.2 ⟨trivial, List.forall_mem_nil _⟩⟩
    simpa using hrow
  have hstores := stores_run .empty steps
  exact ⟨hsame, hvalues, by decide, hstores.equal _ _ hsame hvalues, hstores.alike _ _ hsame⟩

example : (run .empty [.withSource "b" [], .withSource "a" [.empty], .insert "b" [.empty]]).names = ["b", "a"] := rfl

end Table

end PropertyExpr
