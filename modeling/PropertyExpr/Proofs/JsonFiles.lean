import Mathlib.Data.List.Forall2
import PropertyExpr.Environment.JsonFile
import PropertyExpr.Proofs.JsonReading
/-!
# What an environment file in JSON holds

`JsonFile.IsFile` says which documents are files, and with which table: an object with the table under `queries`, or
without that key, or an array that holds the table or nothing. `JsonFile.ofDocument?_eq_some_iff` — exactly these are
read. A key that is passed over must be text, and its value may be anything. What is read is what was written
(`JsonFile.read?_pretty_eq_some_iff`).

Inside a file a value may have one level less than by itself, so values are told first without a bound on their levels
(`Document.IsValue`); the reader gives the value and checks the bound (`Document.toJson?_eq_some_iff`).
-/
namespace PropertyExpr

namespace Json

/-! ## Levels -/

section
variable {room : Nat} {j : Json}

theorem levelsOfItems_le_iff {items : List Json} : levelsOfItems items ≤ room ↔ ∀ j ∈ items, j.levels ≤ room := by
  induction items with
  | nil => simp [levelsOfItems]
  | cons j items ih => rw [levelsOfItems, Nat.max_le, ih, List.forall_mem_cons]

theorem levelsOfFields_le_iff {fields : List (String × Json)} :
    levelsOfFields fields ≤ room ↔ ∀ field ∈ fields, field.2.levels ≤ room := by
  induction fields with
  | nil => simp [levelsOfFields]
  | cons field fields ih => rw [levelsOfFields, Nat.max_le, ih, List.forall_mem_cons]

theorem levels_of_toJson? {literal : NumberLiteral} (h : literal.toJson? = some j) : j.levels = 0 := by
  rw [NumberLiteral.toJson?] at h
  split at h
  · cases h
    rfl
  · obtain ⟨x, -, rfl⟩ := Option.map_eq_some_iff.1 h
    rfl

end

/-! ## The value of a document -/

namespace Document

mutual
/-- The value of a document: its numbers are in range and its strings name whole characters. -/
inductive IsValue : Document → Json → Prop where
  | null : IsValue .null .null
  | bool (b : Bool) : IsValue (.bool b) (.bool b)
  | number {literal : NumberLiteral} {j : Json} (value : literal.toJson? = some j) : IsValue (.number literal) j
  | string {units : List StringUnit} {s : String} (text : decodeString? units = some s) :
      IsValue (.string units) (.string s)
  | array {items : List Document} {js : List Json} (inside : List.Forall₂ IsValue items js) :
      IsValue (.array items) (.array js)
  | object {fields : List (List StringUnit × Document)} {js : List (String × Json)}
      (inside : List.Forall₂ IsField fields js) : IsValue (.object fields) (.object js)
/-- The key and the value of a field. -/
inductive IsField : List StringUnit × Document → String × Json → Prop where
  | mk {units : List StringUnit} {key : String} {d : Document} {j : Json} (text : decodeString? units = some key)
      (value : IsValue d j) : IsField (units, d) (key, j)
end

mutual
/-- **The value of a document is read**, unless it has too many levels. -/
theorem toJson?_eq_some_iff : (d : Document) → (room : Nat) → (j : Json) →
    (d.toJson? room = some j ↔ d.IsValue j ∧ j.levels ≤ room)
  | .null, room, j => by
    constructor
    · rintro ⟨⟩
      exact ⟨.null, Nat.zero_le _⟩
    · rintro ⟨⟨⟩, -⟩
      rfl
  | .bool b, room, j => by
    constructor
    · rintro ⟨⟩
      exact ⟨.bool b, Nat.zero_le _⟩
    · rintro ⟨⟨⟩, -⟩
      rfl
  | .number literal, room, j => by
    constructor
    · intro h
      exact ⟨.number h, Nat.le_trans (Nat.le_of_eq (levels_of_toJson? h)) (Nat.zero_le room)⟩
    · rintro ⟨hvalue, -⟩
      cases hvalue with
      | number h => exact h
  | .string units, room, j => by
    constructor
    · intro h
      obtain ⟨s, hs, rfl⟩ := Option.map_eq_some_iff.1 h
      exact ⟨.string hs, Nat.zero_le _⟩
    · rintro ⟨hvalue, -⟩
      cases hvalue with
      | string hs => exact Option.map_eq_some_iff.2 ⟨_, hs, rfl⟩
  | .array items, 0, j => by
    constructor
    · rintro ⟨⟩
    · rintro ⟨⟨⟩, hlevels⟩
      exact absurd hlevels (Nat.not_succ_le_zero _)
  | .array items, room + 1, j => by
    constructor
    · intro h
      obtain ⟨js, hjs, rfl⟩ := Option.map_eq_some_iff.1 h
      obtain ⟨hitems, hlevels⟩ := (toItems?_eq_some_iff items room js).1 hjs
      exact ⟨.array hitems, Nat.succ_le_succ hlevels⟩
    · rintro ⟨hvalue, hlevels⟩
      cases hvalue with
      | array hitems =>
        have hjs := (toItems?_eq_some_iff items room _).2 ⟨hitems, Nat.le_of_succ_le_succ hlevels⟩
        exact Option.map_eq_some_iff.2 ⟨_, hjs, rfl⟩
  | .object fields, 0, j => by
    constructor
    · rintro ⟨⟩
    · rintro ⟨⟨⟩, hlevels⟩
      exact absurd hlevels (Nat.not_succ_le_zero _)
  | .object fields, room + 1, j => by
    constructor
    · intro h
      obtain ⟨js, hjs, rfl⟩ := Option.map_eq_some_iff.1 h
      obtain ⟨hfields, hlevels⟩ := (toFields?_eq_some_iff fields room js).1 hjs
      exact ⟨.object hfields, Nat.succ_le_succ hlevels⟩
    · rintro ⟨hvalue, hlevels⟩
      cases hvalue with
      | object hfields =>
        have hjs := (toFields?_eq_some_iff fields room _).2 ⟨hfields, Nat.le_of_succ_le_succ hlevels⟩
        exact Option.map_eq_some_iff.2 ⟨_, hjs, rfl⟩
theorem toItems?_eq_some_iff : (items : List Document) → (room : Nat) → (js : List Json) →
    (toItems? room items = some js ↔ List.Forall₂ IsValue items js ∧ levelsOfItems js ≤ room)
  | [], room, js => by
    constructor
    · rintro ⟨⟩
      exact ⟨.nil, Nat.zero_le _⟩
    · rintro ⟨⟨⟩, -⟩
      rfl
  | d :: items, room, js => by
    rw [toItems?]
    constructor
    · intro h
      split at h
      case h_1 j js hj hjs =>
        cases h
        obtain ⟨hvalue, hlevels⟩ := (toJson?_eq_some_iff d room j).1 hj
        obtain ⟨hitems, hothers⟩ := (toItems?_eq_some_iff items room js).1 hjs
        exact ⟨.cons hvalue hitems, Nat.max_le.2 ⟨hlevels, hothers⟩⟩
      case h_2 => cases h
    · rintro ⟨hall, hlevels⟩
      cases hall with
      | cons hvalue hitems =>
        obtain ⟨hlevels, hothers⟩ := Nat.max_le.1 hlevels
        rw [(toJson?_eq_some_iff d room _).2 ⟨hvalue, hlevels⟩, (toItems?_eq_some_iff items room _).2 ⟨hitems, hothers⟩]
theorem toFields?_eq_some_iff : (fields : List (List StringUnit × Document)) → (room : Nat) →
    (js : List (String × Json)) →
    (toFields? room fields = some js ↔ List.Forall₂ IsField fields js ∧ levelsOfFields js ≤ room)
  | [], room, js => by
    constructor
    · rintro ⟨⟩
      exact ⟨.nil, Nat.zero_le _⟩
    · rintro ⟨⟨⟩, -⟩
      rfl
  | (units, d) :: fields, room, js => by
    rw [toFields?]
    constructor
    · intro h
      split at h
      case h_1 key j js hkey hj hjs =>
        cases h
        obtain ⟨hvalue, hlevels⟩ := (toJson?_eq_some_iff d room j).1 hj
        obtain ⟨hfields, hothers⟩ := (toFields?_eq_some_iff fields room js).1 hjs
        exact ⟨.cons (.mk hkey hvalue) hfields, Nat.max_le.2 ⟨hlevels, hothers⟩⟩
      case h_2 => cases h
    · rintro ⟨hall, hlevels⟩
      cases hall with
      | cons hfield hfields =>
        cases hfield with
        | mk hkey hvalue =>
        obtain ⟨hlevels, hothers⟩ := Nat.max_le.1 hlevels
        rw [hkey, (toJson?_eq_some_iff d room _).2 ⟨hvalue, hlevels⟩,
          (toFields?_eq_some_iff fields room _).2 ⟨hfields, hothers⟩]
end

/-- A document has one value at most. -/
theorem IsValue.unique {d : Document} {j j' : Json} (h : d.IsValue j) (h' : d.IsValue j') : j = j' := by
  have hj := (d.toJson?_eq_some_iff (max j.levels j'.levels) j).2 ⟨h, Nat.le_max_left _ _⟩
  have hj' := (d.toJson?_eq_some_iff (max j.levels j'.levels) j').2 ⟨h', Nat.le_max_right _ _⟩
  exact Option.some.inj (hj.symm.trans hj')

end Document

/-- The document that a value is written as has that value. -/
theorem isValue_document {j : Json} (hj : j.Whole) : j.document.IsValue j := by
  have hread := toJson?_document j j.levels hj
  rw [if_pos (Nat.le_refl _)] at hread
  exact ((j.document.toJson?_eq_some_iff j.levels j).1 hread).1

end Json

/-! ## Tables -/

/-- What is read one by one is related one by one. -/
theorem mapM_eq_some_iff {α β : Type} {f : α → Option β} {R : α → β → Prop} (hf : ∀ a b, f a = some b ↔ R a b)
    {as : List α} {bs : List β} : as.mapM f = some bs ↔ List.Forall₂ R as bs := by
  induction as generalizing bs with
  | nil =>
    rw [List.mapM_nil, List.forall₂_nil_left_iff]
    exact ⟨fun h => (Option.some.inj h).symm, fun h => congrArg some (Eq.symm h)⟩
  | cons a as ih =>
    simp only [List.mapM_cons, Option.bind_eq_bind, Option.bind_eq_some_iff]
    constructor
    · rintro ⟨b, hb, bs, hbs, ⟨⟩⟩
      exact .cons ((hf a b).1 hb) (ih.1 hbs)
    · intro h
      cases h with
      | cons hb hbs => exact ⟨_, (hf a _).2 hb, _, ih.2 hbs, rfl⟩

namespace Table

/-- An object is the row of its fields, of which the last counts if several have the same key. -/
inductive IsRow : Json → Row → Prop where
  | mk (fields : List (String × Json)) :
      IsRow (.object fields) (.ofList (fields.map fun field => (field.1, Value.ofJson field.2)))

/-- An array is the rows of a source. -/
inductive IsRows : Json → List Row → Prop where
  | mk {items : List Json} {rows : List Row} (each : List.Forall₂ IsRow items rows) : IsRows (.array items) rows

/-- A field is a source. -/
inductive IsSource : String × Json → String × List Row → Prop where
  | mk {name : String} {j : Json} {rows : List Row} (isRows : IsRows j rows) : IsSource (name, j) (name, rows)

/-- An object is the table of its fields, of which the last counts if several have the same key. -/
inductive IsTable : Json → Table → Prop where
  | mk {fields : List (String × Json)} {sources : List (String × List Row)}
      (each : List.Forall₂ IsSource fields sources) : IsTable (.object fields) ⟨.ofList sources⟩

theorem rowOfJson?_eq_some_iff (j : Json) (row : Row) : rowOfJson? j = some row ↔ IsRow j row := by
  constructor
  · intro h
    cases j with
    | object fields =>
      cases h
      exact .mk fields
    | _ => cases h
  · rintro ⟨fields⟩
    rfl

theorem rowsOfJson?_eq_some_iff (j : Json) (rows : List Row) : rowsOfJson? j = some rows ↔ IsRows j rows := by
  constructor
  · intro h
    cases j with
    | array items => exact .mk ((mapM_eq_some_iff rowOfJson?_eq_some_iff).1 h)
    | _ => cases h
  · rintro ⟨each⟩
    exact (mapM_eq_some_iff rowOfJson?_eq_some_iff).2 each

theorem sourceOfJson?_eq_some_iff (field : String × Json) (source : String × List Row) :
    sourceOfJson? field = some source ↔ IsSource field source := by
  obtain ⟨name, j⟩ := field
  rw [sourceOfJson?, Option.map_eq_some_iff]
  constructor
  · rintro ⟨rows, hrows, rfl⟩
    exact .mk ((rowsOfJson?_eq_some_iff j rows).1 hrows)
  · rintro ⟨hrows⟩
    exact ⟨_, (rowsOfJson?_eq_some_iff j _).2 hrows, rfl⟩

/-- **Exactly the objects of arrays of objects are tables.** -/
theorem ofJson?_eq_some_iff {j : Json} {t : Table} : ofJson? j = some t ↔ IsTable j t := by
  constructor
  · intro h
    cases j with
    | object fields =>
      obtain ⟨sources, hsources, rfl⟩ := Option.map_eq_some_iff.1 h
      exact .mk ((mapM_eq_some_iff sourceOfJson?_eq_some_iff).1 hsources)
    | _ => cases h
  · rintro ⟨each⟩
    exact Option.map_eq_some_iff.2 ⟨_, (mapM_eq_some_iff sourceOfJson?_eq_some_iff).2 each, rfl⟩

end Table

namespace Environment.JsonFile

open Json

/-! ## Files -/

/-- A document inside a file is the given table. -/
inductive IsTable : Document → Table → Prop where
  | mk {d : Document} {j : Json} {t : Table} (value : d.IsValue j) (levels : j.levels < maxDepth)
      (isTable : Table.IsTable j t) : IsTable d t

/-- The table under the key `queries` among fields, of which at most one has that key. -/
inductive Finds : List (List StringUnit × Document) → Option Table → Prop where
  | nil : Finds [] none
  | other {units : List StringUnit} {key : String} {d : Document} {rest : List (List StringUnit × Document)}
      {found : Option Table} (text : decodeString? units = some key) (ne : key ≠ "queries") (others : Finds rest found) :
      Finds ((units, d) :: rest) found
  | queries {units : List StringUnit} {d : Document} {rest : List (List StringUnit × Document)} {t : Table}
      (text : decodeString? units = some "queries") (isTable : IsTable d t) (others : Finds rest none) :
      Finds ((units, d) :: rest) (some t)

/-- A document is a file with the given table. -/
inductive IsFile : Document → Table → Prop where
  | object {fields : List (List StringUnit × Document)} {found : Option Table} (finds : Finds fields found) :
      IsFile (.object fields) (found.getD .empty)
  | nothing : IsFile (.array []) .empty
  | array {d : Document} {t : Table} (isTable : IsTable d t) : IsFile (.array [d]) t

theorem table?_eq_some_iff {d : Document} {t : Table} : table? d = some t ↔ IsTable d t := by
  have hlevels (j : Json) : j.levels ≤ maxDepth - 1 ↔ j.levels < maxDepth := Nat.le_iff_lt_add_one
  rw [table?, Option.bind_eq_some_iff]
  constructor
  · rintro ⟨j, hj, ht⟩
    obtain ⟨hvalue, hj⟩ := (d.toJson?_eq_some_iff _ j).1 hj
    exact .mk hvalue ((hlevels j).1 hj) (Table.ofJson?_eq_some_iff.1 ht)
  · rintro ⟨hvalue, hj, ht⟩
    exact ⟨_, (d.toJson?_eq_some_iff _ _).2 ⟨hvalue, (hlevels _).2 hj⟩, Table.ofJson?_eq_some_iff.2 ht⟩

/-- Fields behind others give their own table, if those have given none. -/
theorem ofFields?_eq_some_iff {found result : Option Table} {fields : List (List StringUnit × Document)} :
    ofFields? found fields = some result ↔
      ∃ own, Finds fields own ∧ (found = none ∨ own = none) ∧ result = found.or own := by
  induction fields generalizing found with
  | nil =>
    constructor
    · rintro ⟨⟩
      exact ⟨none, .nil, .inr rfl, Option.or_none.symm⟩
    · rintro ⟨own, ⟨⟩, -, rfl⟩
      rw [ofFields?, Option.or_none]
  | cons field fields ih =>
    obtain ⟨units, d⟩ := field
    rw [ofFields?.eq_def]
    constructor
    · intro h
      dsimp only at h
      split at h
      case h_1 => cases h
      case h_2 key hkey =>
        split at h
        · rename_i hqueries
          subst hqueries
          split at h
          case h_1 t ht =>
            obtain ⟨own, hown, hnone, rfl⟩ := ih.1 h
            cases hnone.resolve_left (by simp)
            exact ⟨some t, .queries hkey (table?_eq_some_iff.1 ht) hown, .inl rfl, rfl⟩
          case h_2 => cases h
        · rename_i hother
          obtain ⟨own, hown, hone, rfl⟩ := ih.1 h
          exact ⟨own, .other hkey hother hown, hone, rfl⟩
    · rintro ⟨own, hown, hone, rfl⟩
      cases hown with
      | other hkey hother hown =>
        simp only [hkey, if_neg hother]
        exact ih.2 ⟨own, hown, hone, rfl⟩
      | queries hkey ht hown =>
        cases hone.resolve_right (by simp)
        simp only [hkey, table?_eq_some_iff.2 ht]
        exact ih.2 ⟨none, hown, .inr rfl, rfl⟩

/-- **Exactly the files are read.** -/
theorem ofDocument?_eq_some_iff {d : Document} {t : Table} : ofDocument? d = some t ↔ IsFile d t := by
  constructor
  · intro h
    rw [ofDocument?.eq_def] at h
    split at h
    case h_1 fields =>
      obtain ⟨found, hfound, rfl⟩ := Option.map_eq_some_iff.1 h
      obtain ⟨own, hown, -, rfl⟩ := ofFields?_eq_some_iff.1 hfound
      exact .object hown
    case h_2 =>
      cases h
      exact .nothing
    case h_3 d => exact .array (table?_eq_some_iff.1 h)
    case h_4 => cases h
  · intro h
    cases h with
    | object hfinds => exact Option.map_eq_some_iff.2 ⟨_, ofFields?_eq_some_iff.2 ⟨_, hfinds, .inl rfl, rfl⟩, rfl⟩
    | nothing => rfl
    | array ht => exact table?_eq_some_iff.2 ht

/-- **What is written as a file is read back**: a value without doubles under `queries` is read as the table that it is,
if it has not too many levels. -/
theorem read?_pretty_eq_some_iff {j : Json} (hj : j.Whole) {t : Table} :
    read? (String.ofList (Json.object [("queries", j)]).pretty ++ "\n") = some t ↔
      j.levels < maxDepth ∧ Table.IsTable j t := by
  have hchars : (String.ofList (Json.object [("queries", j)]).pretty ++ "\n").toList =
      (Json.object [("queries", j)]).pretty ++ ['\n'] := by
    rw [String.toList_append, String.toList_ofList]
    rfl
  have hwhole : (Json.object [("queries", j)]).Whole := ⟨hj, trivial⟩
  have hkey : decodeString? (unitsOf "queries") = some "queries" := decodeString?_unitsOf "queries"
  rw [read?, hchars, Document.ofText?_pretty_chars _ hwhole, Option.bind_some, ofDocument?_eq_some_iff]
  constructor
  · intro hfile
    generalize hd : (Json.object [("queries", j)]).document = d at hfile
    cases hfile with
    | nothing => cases hd
    | array => cases hd
    | object finds =>
      cases hd
      cases finds with
      | other htext hother => exact absurd (Option.some.inj (hkey.symm.trans htext)).symm hother
      | queries _ isTable _ =>
        cases isTable with
        | mk value levels isTable =>
          cases (isValue_document hj).unique value
          exact ⟨levels, isTable⟩
  · rintro ⟨hlevels, ht⟩
    exact .object (.queries hkey (.mk (isValue_document hj) hlevels ht) .nil)

end Environment.JsonFile

end PropertyExpr
