/-!
# Maps in insertion order: `IndexMap`

Keys come in the order in which they were first inserted; inserting a key again changes its value and not its
place (`keys_insert`). Looking a key up sees what was inserted last under it (`get?_insert`) and does not see the order
(`get?_of_perm`).
-/
namespace PropertyExpr

/-- A list of entries, no two of which have the same key. -/
structure OrderedMap (α : Type) where
  entries : List (String × α)
  nodup : (entries.map Prod.fst).Nodup

namespace OrderedMap

variable {α : Type}

def empty : OrderedMap α := ⟨[], by simp⟩

instance : Inhabited (OrderedMap α) := ⟨empty⟩

/-- The keys in the order of their first insertion. -/
def keys (m : OrderedMap α) : List String := m.entries.map Prod.fst

def size (m : OrderedMap α) : Nat := m.entries.length

def get? (m : OrderedMap α) (key : String) : Option α := m.entries.lookup key

/-- Changes the entry with `key`, or adds one at the end. -/
def insertEntry (key : String) (value : α) : List (String × α) → List (String × α)
  | [] => [(key, value)]
  | (k, v) :: entries =>
    if k = key then (k, value) :: entries else (k, v) :: insertEntry key value entries

theorem keys_insertEntry (key : String) (value : α) (entries : List (String × α)) :
    (insertEntry key value entries).map Prod.fst =
      if key ∈ entries.map Prod.fst then entries.map Prod.fst else entries.map Prod.fst ++ [key] := by
  induction entries with
  | nil => simp [insertEntry]
  | cons e entries ih =>
    obtain ⟨k, v⟩ := e
    by_cases h : k = key
    · simp [insertEntry, h]
    · simp only [insertEntry, h, if_false, List.map_cons, ih, List.mem_cons, Ne.symm h, false_or]
      split <;> simp

def insert (m : OrderedMap α) (key : String) (value : α) : OrderedMap α where
  entries := insertEntry key value m.entries
  nodup := by
    rw [keys_insertEntry]
    split
    · exact m.nodup
    · rename_i h
      rw [List.nodup_append]
      refine ⟨m.nodup, by simp, ?_⟩
      intro a ha b hb e
      simp only [List.mem_singleton] at hb
      exact h (hb ▸ e ▸ ha)

/-- The map that inserting entries one after the other makes. -/
def ofList (entries : List (String × α)) : OrderedMap α :=
  entries.foldl (fun m (key, value) => m.insert key value) empty

/-- Whether two maps have the same keys with values that `same` accepts, in whatever order. -/
def equal (same : α → α → Bool) (a b : OrderedMap α) : Bool :=
  a.size == b.size && a.entries.all fun (key, x) =>
    match b.get? key with
    | some y => same x y
    | none => false

/-- A new key goes to the end, an old one keeps its place. -/
theorem keys_insert (m : OrderedMap α) (key : String) (value : α) :
    (m.insert key value).keys = if key ∈ m.keys then m.keys else m.keys ++ [key] :=
  keys_insertEntry key value m.entries

theorem lookup_cons_eq_ite (key k : String) (value : α) (entries : List (String × α)) :
    ((key, value) :: entries).lookup k = if k = key then some value else entries.lookup k := by
  rw [List.lookup_cons]
  by_cases hk : k = key
  · rw [if_pos hk, beq_iff_eq.2 hk]
  · rw [if_neg hk, beq_eq_false_iff_ne.2 hk]

theorem lookup_insertEntry (key k : String) (value : α) (entries : List (String × α)) :
    (insertEntry key value entries).lookup k = if k = key then some value else entries.lookup k := by
  induction entries with
  | nil => exact lookup_cons_eq_ite key k value []
  | cons e entries ih =>
    obtain ⟨k', v⟩ := e
    by_cases h : k' = key
    · rw [insertEntry, if_pos h, lookup_cons_eq_ite, lookup_cons_eq_ite, h]
      split <;> rfl
    · rw [insertEntry, if_neg h, lookup_cons_eq_ite, lookup_cons_eq_ite, ih]
      by_cases hk : k = k'
      · rw [if_pos hk, if_pos hk, if_neg (hk ▸ h)]
      · rw [if_neg hk, if_neg hk]

/-- Inserting a key changes what is under that key and nothing else. -/
theorem get?_insert (m : OrderedMap α) (key k : String) (value : α) :
    (m.insert key value).get? k = if k = key then some value else m.get? k :=
  lookup_insertEntry key k value m.entries

theorem lookup_eq_some_iff {entries : List (String × α)} (nodup : (entries.map Prod.fst).Nodup) {key : String}
    {value : α} : entries.lookup key = some value ↔ (key, value) ∈ entries := by
  induction entries with
  | nil => simp
  | cons e entries ih =>
    obtain ⟨k, v⟩ := e
    rw [List.map_cons, List.nodup_cons] at nodup
    rw [lookup_cons_eq_ite, List.mem_cons, Prod.mk.injEq]
    by_cases hk : key = k
    · subst hk
      have hnot : (key, value) ∉ entries := by
        intro hmem
        have hkey : key ∈ entries.map Prod.fst := List.mem_map_of_mem (f := Prod.fst) hmem
        exact nodup.1 hkey
      simp [hnot, eq_comm]
    · simp [hk, ih nodup.2]

theorem get?_eq_none_iff {m : OrderedMap α} {key : String} : m.get? key = none ↔ key ∉ m.keys := by
  rw [get?, List.lookup_eq_none_iff, keys, List.mem_map]
  constructor
  · rintro h ⟨e, he, rfl⟩
    exact bne_iff_ne.1 (h e he) rfl
  · intro h e he
    exact bne_iff_ne.2 fun heq => h ⟨e, he, heq.symm⟩

/-- The order of the entries makes no difference to what is under a key. -/
theorem get?_of_perm {m m' : OrderedMap α} (h : m.entries.Perm m'.entries) (key : String) :
    m.get? key = m'.get? key := by
  apply Option.ext
  intro value
  rw [get?, get?, lookup_eq_some_iff m.nodup, lookup_eq_some_iff m'.nodup, h.mem_iff]

end OrderedMap

end PropertyExpr
