import PropertyExpr.Environment.File
import PropertyExpr.Proofs.JsonFiles
/-!
# What an environment file holds

`Format.Holds` says which contents are files in a format, and with which table; `Format.read?_eq_some_iff` — exactly
these are read. A file in JSON is `JsonFile.IsFile`. A file in YAML is told here: a node may be an alias for another, a
mapping or a sequence may be left out, and no more than a hundred aliases may be followed for each event.

The number of aliases that are followed is part of what is said of a node (`StandsFor`, `IsValue`, `IsTable`), so that
what a node holds is told without a limit and without a state. `Reads` relates a reading to what it reads: it gives
exactly that, as long as the limit allows the aliases it takes. It holds of each step of the reader and is kept by
putting steps together (`Reads.bind`, `Reads.mapM`), so the reader is followed by its own structure.
-/
namespace PropertyExpr

/-! ## Scalars have no levels -/

namespace Yaml

variable {s : String} {j : Json}

theorem levels_ofDouble (x : Float) : (ofDouble x).levels = 0 := by
  rw [ofDouble]
  split <;> rfl

theorem levels_of_ofInteger? {n : Int} (h : ofInteger? n = some (some j)) : j.levels = 0 := by
  rw [ofInteger?] at h
  split at h
  · cases h
    rfl
  · split at h <;> cases h

theorem levels_of_plainValue? (h : plainValue? s = some j) : j.levels = 0 := by
  rw [plainValue?] at h
  split at h
  · cases h
    rfl
  · split at h
    case h_1 b hb =>
      cases h
      rfl
    case h_2 =>
      split at h
      case h_1 r hr =>
        subst h
        obtain ⟨n, -, hn⟩ := Option.bind_eq_some_iff.1 hr
        exact levels_of_ofInteger? hn
      case h_2 =>
        split at h
        case h_1 x hx =>
          cases h
          exact levels_ofDouble x
        case h_2 =>
          cases h
          rfl

theorem levels_of_taggedValue? {tag : Tag} {plain : Bool} (h : taggedValue? tag s plain = some j) : j.levels = 0 := by
  rw [taggedValue?] at h
  split at h
  · cases h
  split at h
  · obtain ⟨b, -, rfl⟩ := Option.map_eq_some_iff.1 h
    rfl
  split at h
  · obtain ⟨n, -, hn⟩ := Option.bind_eq_some_iff.1 (Option.join_eq_some_iff.1 h)
    exact levels_of_ofInteger? hn
  split at h
  · obtain ⟨x, -, rfl⟩ := Option.map_eq_some_iff.1 h
    exact levels_ofDouble x
  split at h
  · split at h
    · cases h
      rfl
    · cases h
  split at h
  · exact levels_of_plainValue? h
  · cases h
    rfl

/-- A scalar stands for no array and no object. -/
theorem levels_of_scalarValue? {tag : Option Tag} {plain : Bool} (h : scalarValue? tag s plain = some j) :
    j.levels = 0 := by
  cases tag with
  | some tag => exact levels_of_taggedValue? h
  | none =>
    rw [scalarValue?] at h
    split at h
    · exact levels_of_plainValue? h
    · cases h
      rfl

end Yaml

namespace Environment.YamlFile

open Yaml

/-! ## What nodes stand for -/

section
variable (targets : Targets)

/-- The node that a node is or stands for, and how many aliases lead to it. -/
inductive StandsFor : Tree → Tree → Nat → Prop where
  | itself {tree : Tree} (not_alias : ∀ number, tree ≠ .aliasOf number) : StandsFor tree tree 0
  | target {number : Nat} {tree : Tree} (target : targets.get? number = some tree) :
      StandsFor (.aliasOf number) tree 1

/-- A scalar is the key that is its text. -/
inductive IsKey : Tree → String → Nat → Prop where
  | scalar {tree : Tree} {tag : Option Tag} {text : String} {plain : Bool} {n : Nat}
      (stands : StandsFor targets tree (.scalar tag text plain) n) : IsKey tree text n

/-- What is inside a node, which must be a collection of one kind or nothing at all. -/
def Inside {α : Type} (collection : Option Tag → List α → Tree) (node : Tree) (inside : List α) : Prop :=
  (∃ tag, node = collection tag inside) ∨ ∃ tag, node = .scalar tag "" true ∧ inside = []

/-- What is inside the collection that a node stands for. -/
inductive Has {α : Type} (collection : Option Tag → List α → Tree) : Tree → List α → Nat → Prop where
  | mk {tree node : Tree} {inside : List α} {n : Nat} (stands : StandsFor targets tree node n)
      (isInside : Inside collection node inside) : Has collection tree inside n

/-- One by one, the first are related to the second, and the aliases add up. -/
inductive Each {α β : Type} (R : α → β → Nat → Prop) : List α → List β → Nat → Prop where
  | nil : Each R [] [] 0
  | cons {a : α} {b : β} {as : List α} {bs : List β} {n n' : Nat} (first : R a b n) (others : Each R as bs n') :
      Each R (a :: as) (b :: bs) (n + n')

/-- An entry of a mapping whose value is related by `R`. -/
inductive IsEntry {β : Type} (R : Tree → β → Nat → Prop) : Tree × Tree → String × β → Nat → Prop where
  | mk {k v : Tree} {key : String} {b : β} {n n' : Nat} (isKey : IsKey targets k key n) (value : R v b n') :
      IsEntry R (k, v) (key, b) (n + n')

mutual
/-- The value that a node stands for. -/
inductive IsValue : Tree → Json → Nat → Prop where
  | mk {tree node : Tree} {j : Json} {n n' : Nat} (stands : StandsFor targets tree node n)
      (content : IsContent node j n') : IsValue tree j (n + n')
/-- The value of a node that is no alias. A collection has no type of its own. -/
inductive IsContent : Tree → Json → Nat → Prop where
  | scalar {tag : Option Tag} {text : String} {plain : Bool} {j : Json}
      (value : scalarValue? tag text plain = some j) : IsContent (.scalar tag text plain) j 0
  | sequence {tag : Option Tag} {items : List Tree} {js : List Json} {n : Nat} (untyped : ¬ tag.any Tag.isOwn)
      (inside : Each IsValue items js n) : IsContent (.sequence tag items) (.array js) n
  | mapping {tag : Option Tag} {entries : List (Tree × Tree)} {fields : List (String × Json)} {n : Nat}
      (untyped : ¬ tag.any Tag.isOwn) (inside : Each (IsEntry targets IsValue) entries fields n) :
      IsContent (.mapping tag entries) (.object fields) n
end

/-- The value of a field of a row. Around it are the mappings of the file, of the sources and of the row, and the
sequence of the rows. -/
inductive IsField : Tree → Value → Nat → Prop where
  | mk {tree : Tree} {j : Json} {n : Nat} (value : IsValue targets tree j n) (levels : j.levels + 4 ≤ maxDepth) :
      IsField tree (Value.ofJson j) n

/-- A mapping is what is made of its entries, whose values are related by `R`. -/
inductive IsMapping {β γ : Type} (R : Tree → β → Nat → Prop) (make : List (String × β) → γ) :
    Tree → γ → Nat → Prop where
  | mk {tree : Tree} {entries : List (Tree × Tree)} {fields : List (String × β)} {n n' : Nat}
      (has : Has targets .mapping tree entries n) (each : Each (IsEntry targets R) entries fields n') :
      IsMapping R make tree (make fields) (n + n')

/-- A mapping is the row of its entries, of which the last counts if several have the same key. -/
def IsRow : Tree → Row → Nat → Prop := IsMapping targets (IsField targets) .ofList

/-- A sequence is the rows of a source. -/
inductive IsRows : Tree → List Row → Nat → Prop where
  | mk {tree : Tree} {items : List Tree} {rows : List Row} {n n' : Nat} (has : Has targets .sequence tree items n)
      (each : Each (IsRow targets) items rows n') : IsRows tree rows (n + n')

/-- A mapping is the table of its entries, of which the last counts if several have the same key. -/
def IsTable : Tree → Table → Nat → Prop := IsMapping targets (IsRows targets) fun sources => ⟨.ofList sources⟩

/-- The table under the key `queries` among entries, of which at most one has that key. What is under other keys is
not looked at. -/
inductive Finds : List (Tree × Tree) → Option Table → Nat → Prop where
  | nil : Finds [] none 0
  | other {k v : Tree} {key : String} {rest : List (Tree × Tree)} {found : Option Table} {n n' : Nat}
      (isKey : IsKey targets k key n) (ne : key ≠ "queries") (others : Finds rest found n') :
      Finds ((k, v) :: rest) found (n + n')
  | queries {k v : Tree} {rest : List (Tree × Tree)} {t : Table} {n n' n'' : Nat} (isKey : IsKey targets k "queries" n)
      (isTable : IsTable targets v t n') (others : Finds rest none n'') :
      Finds ((k, v) :: rest) (some t) (n + (n' + n''))

/-- A document with the given root is a file with the given table. -/
inductive IsFile : Tree → Table → Nat → Prop where
  | mk {root : Tree} {entries : List (Tree × Tree)} {found : Option Table} {n n' : Nat}
      (has : Has targets .mapping root entries n) (finds : Finds targets entries found n') :
      IsFile root (found.getD .empty) (n + n')

end

section
variable {α β : Type} {R R' : α → β → Nat → Prop} {P : β → Prop} {as : List α} {bs : List β} {n : Nat}

theorem each_and_iff : Each (fun a b n => R a b n ∧ P b) as bs n ↔ Each R as bs n ∧ ∀ b ∈ bs, P b := by
  constructor
  · intro h
    induction h with
    | nil => exact ⟨.nil, List.forall_mem_nil _⟩
    | cons first _ ih => exact ⟨.cons first.1 ih.1, List.forall_mem_cons.2 ⟨first.2, ih.2⟩⟩
  · rintro ⟨h, hall⟩
    induction h with
    | nil => exact .nil
    | cons first _ ih =>
      obtain ⟨hfirst, hall⟩ := List.forall_mem_cons.1 hall
      exact .cons ⟨first, hfirst⟩ (ih hall)

theorem Each.mono (h : Each R as bs n) (hR : ∀ a b n, R a b n → R' a b n) : Each R' as bs n := by
  induction h with
  | nil => exact .nil
  | cons first _ ih => exact .cons (hR _ _ _ first) ih

end

theorem each_isEntry_and_iff {targets : Targets} {β : Type} {R : Tree → β → Nat → Prop} {P : β → Prop}
    {entries : List (Tree × Tree)} {fields : List (String × β)} {n : Nat} :
    Each (IsEntry targets fun v b n => R v b n ∧ P b) entries fields n ↔
      Each (IsEntry targets R) entries fields n ∧ ∀ field ∈ fields, P field.2 := by
  rw [← each_and_iff]
  constructor
  · refine fun h => h.mono fun entry field n => ?_
    rintro ⟨isKey, value, hP⟩
    exact ⟨.mk isKey value, hP⟩
  · refine fun h => h.mono fun entry field n => ?_
    rintro ⟨⟨isKey, value⟩, hP⟩
    exact .mk isKey ⟨value, hP⟩

/-! ## Readings -/

/-- A reading gives what `R` says, and follows as many aliases as `R` says, or gives nothing because they are too
many. -/
def Reads {α : Type} (document : Document) (m : Reading α) (R : α → Nat → Prop) : Prop :=
  ∀ followed ≤ document.follows, ∀ a followed',
    m.run followed = some (a, followed') ↔ ∃ n, R a n ∧ followed + n = followed' ∧ followed' ≤ document.follows

namespace Reads

variable {document : Document} {α β : Type} {m : Reading α} {R R' : α → Nat → Prop}

theorem congr (h : Reads document m R) (hR : ∀ a n, R a n ↔ R' a n) : Reads document m R' := by
  intro followed hfollowed a followed'
  rw [h followed hfollowed]
  simp only [hR]

theorem pure (a : α) : Reads document (Pure.pure a) fun b n => b = a ∧ n = 0 := by
  intro followed hfollowed b followed'
  rw [StateT.run_pure]
  constructor
  · intro h
    cases h
    exact ⟨0, ⟨rfl, rfl⟩, rfl, hfollowed⟩
  · rintro ⟨n, ⟨rfl, rfl⟩, rfl, -⟩
    rfl

theorem failure : Reads document (Alternative.failure : Reading α) fun _ _ => False := by
  intro followed _ b followed'
  constructor
  · intro h
    cases h
  · rintro ⟨n, ⟨⟩, -⟩

theorem lift (o : Option α) : Reads document (StateT.lift o) fun a n => o = some a ∧ n = 0 := by
  intro followed hfollowed a followed'
  rw [StateT.run_lift]
  constructor
  · intro h
    obtain ⟨b, hb, h⟩ := Option.bind_eq_some_iff.1 h
    cases h
    exact ⟨0, ⟨hb, rfl⟩, rfl, hfollowed⟩
  · rintro ⟨n, ⟨rfl, rfl⟩, rfl, -⟩
    rfl

theorem bind {f : α → Reading β} {S : α → β → Nat → Prop} (h : Reads document m R)
    (hf : ∀ a, Reads document (f a) (S a)) :
    Reads document (m >>= f) fun b n => ∃ a first others, R a first ∧ S a b others ∧ n = first + others := by
  intro followed hfollowed b followed'
  rw [StateT.run_bind]
  constructor
  · intro hrun
    obtain ⟨⟨a, between⟩, ha, hb⟩ := Option.bind_eq_some_iff.1 hrun
    obtain ⟨first, hR, rfl, hbetween⟩ := (h followed hfollowed a between).1 ha
    obtain ⟨others, hS, rfl, hbound⟩ := (hf a _ hbetween b followed').1 hb
    exact ⟨first + others, ⟨a, first, others, hR, hS, rfl⟩, (Nat.add_assoc _ _ _).symm, hbound⟩
  · rintro ⟨n, ⟨a, first, others, hR, hS, rfl⟩, rfl, hbound⟩
    have hbetween : followed + first ≤ document.follows := by omega
    refine Option.bind_eq_some_iff.2 ⟨(a, followed + first), ?_, ?_⟩
    · exact (h followed hfollowed a _).2 ⟨first, hR, rfl, hbetween⟩
    · exact (hf a _ hbetween b _).2 ⟨others, hS, Nat.add_assoc _ _ _, hbound⟩

theorem mapM {f : β → Reading α} {S : β → α → Nat → Prop} (hf : ∀ b, Reads document (f b) (S b)) (bs : List β) :
    Reads document (bs.mapM f) (Each S bs) := by
  induction bs with
  | nil =>
    rw [List.mapM_nil]
    refine (Reads.pure []).congr fun as n => ?_
    constructor
    · rintro ⟨rfl, rfl⟩
      exact .nil
    · rintro ⟨⟩
      exact ⟨rfl, rfl⟩
  | cons b bs ih =>
    rw [List.mapM_cons]
    refine ((hf b).bind fun a => ih.bind fun as => Reads.pure (a :: as)).congr fun all n => ?_
    constructor
    · rintro ⟨a, first, others, ha, ⟨as, rest, none, has, ⟨rfl, rfl⟩, rfl⟩, rfl⟩
      exact .cons ha has
    · intro h
      cases h with
      | cons ha has => exact ⟨_, _, _, ha, ⟨_, _, 0, has, ⟨rfl, rfl⟩, rfl⟩, rfl⟩

end Reads

/-! ## The steps of the reader -/

section
variable {document : Document} {β : Type}

theorem run_follow_aliasOf (number followed : Nat) : (follow document (.aliasOf number)).run followed =
    if followed < document.follows then (document.targets.get? number).map (·, followed + 1) else none := by
  have hget : (follow document (.aliasOf number)).run followed = ((if followed < document.follows then do
        set (followed + 1)
        document.targets.get? number
      else failure : Reading Tree)).run followed := rfl
  rw [hget]
  by_cases h : followed < document.follows
  · rw [if_pos h, if_pos h]
    cases document.targets.get? number <;> exact rfl
  · rw [if_neg h, if_neg h]
    exact rfl

theorem reads_follow (tree : Tree) : Reads document (follow document tree) (StandsFor document.targets tree) := by
  cases tree with
  | aliasOf number =>
    intro followed hfollowed node followed'
    rw [run_follow_aliasOf]
    constructor
    · intro h
      obtain ⟨hlt, h⟩ := Option.ite_none_right_eq_some.1 h
      obtain ⟨node, hnode, ⟨⟩⟩ := Option.map_eq_some_iff.1 h
      exact ⟨1, .target hnode, rfl, hlt⟩
    · rintro ⟨n, hstands, rfl, hbound⟩
      cases hstands with
      | itself not_alias => exact absurd rfl (not_alias number)
      | target htarget => rw [if_pos (Nat.lt_of_succ_le hbound), htarget, Option.map_some]
  | scalar | sequence | mapping =>
    refine (Reads.pure _).congr fun node n => ⟨?_, ?_⟩
    · rintro ⟨rfl, rfl⟩
      exact .itself (by simp)
    · rintro ⟨⟩
      exact ⟨rfl, rfl⟩

theorem reads_key (tree : Tree) : Reads document (key document tree) (IsKey document.targets tree) := by
  refine ((reads_follow tree).bind (S := fun node text n => ∃ tag plain, node = .scalar tag text plain ∧ n = 0)
    fun node => ?_).congr fun text n => ?_
  · cases node with
    | scalar tag text plain => exact (Reads.pure text).congr fun text' n => by simp [eq_comm]
    | aliasOf | sequence | mapping => exact Reads.failure.congr fun text n => by simp
  · constructor
    · rintro ⟨node, first, others, hnode, ⟨tag, plain, rfl, rfl⟩, rfl⟩
      exact .scalar hnode
    · rintro ⟨hnode⟩
      exact ⟨_, _, 0, hnode, ⟨_, _, rfl, rfl⟩, rfl⟩

theorem has_iff {α : Type} {targets : Targets} {collection : Option Tag → List α → Tree} {tree : Tree}
    {inside : List α} {n : Nat} : (∃ node first others, StandsFor targets tree node first ∧
      (Inside collection node inside ∧ others = 0) ∧ n = first + others) ↔ Has targets collection tree inside n := by
  constructor
  · rintro ⟨node, first, others, hnode, ⟨hinside, rfl⟩, rfl⟩
    exact .mk hnode hinside
  · rintro ⟨hnode, hinside⟩
    exact ⟨_, n, 0, hnode, ⟨hinside, rfl⟩, rfl⟩

theorem reads_entries (tree : Tree) :
    Reads document (entries document tree) (Has document.targets .mapping tree) := by
  refine ((reads_follow tree).bind (S := fun node entries n => Inside .mapping node entries ∧ n = 0)
    fun node => ?_).congr fun entries n => has_iff
  split
  case h_1 tag inside => exact (Reads.pure inside).congr fun entries n => by simp [Inside, eq_comm]
  case h_2 tag => exact (Reads.pure []).congr fun entries n => by simp [Inside]
  case h_3 hmapping hscalar => exact Reads.failure.congr fun entries n => by grind [Inside]

theorem reads_items (tree : Tree) : Reads document (items document tree) (Has document.targets .sequence tree) := by
  refine ((reads_follow tree).bind (S := fun node items n => Inside .sequence node items ∧ n = 0)
    fun node => ?_).congr fun items n => has_iff
  split
  case h_1 tag inside => exact (Reads.pure inside).congr fun items n => by simp [Inside, eq_comm]
  case h_2 tag => exact (Reads.pure []).congr fun items n => by simp [Inside]
  case h_3 hsequence hscalar => exact Reads.failure.congr fun items n => by grind [Inside]

theorem reads_entry {f : Tree → Reading β} {R : Tree → β → Nat → Prop} (hf : ∀ v, Reads document (f v) (R v))
    (k v : Tree) : Reads document (do return (← key document k, ← f v)) (IsEntry document.targets R (k, v)) := by
  refine ((reads_key k).bind fun name => (hf v).bind fun b => Reads.pure (name, b)).congr fun field n => ?_
  constructor
  · rintro ⟨name, first, others, hname, ⟨b, second, none, hb, ⟨rfl, rfl⟩, rfl⟩, rfl⟩
    exact .mk hname hb
  · intro h
    cases h with
    | mk hname hb => exact ⟨_, _, _, hname, ⟨_, _, 0, hb, ⟨rfl, rfl⟩, rfl⟩, rfl⟩

/-- A collection that must not have a type of its own is made of what is inside. -/
theorem reads_untyped {α : Type} {inside : Reading α} {R : α → Nat → Prop} (h : Reads document inside R)
    (tag : Option Tag) (wrap : α → Json) :
    Reads document
      (do
        if tag.any Tag.isOwn then failure
        return wrap (← inside))
      fun j n => ¬ tag.any Tag.isOwn ∧ ∃ a, j = wrap a ∧ R a n := by
  by_cases hown : tag.any Tag.isOwn
  · simp only [if_pos hown]
    exact Reads.failure.congr fun j n => by simp [hown]
  · simp only [if_neg hown]
    refine (h.bind fun a => Reads.pure (wrap a)).congr fun j n => ?_
    constructor
    · rintro ⟨a, first, none, ha, ⟨rfl, rfl⟩, rfl⟩
      exact ⟨hown, a, rfl, ha⟩
    · rintro ⟨-, a, rfl, ha⟩
      exact ⟨a, n, 0, ha, ⟨rfl, rfl⟩, rfl⟩

/-- The value that a node stands for is read, unless it has too many levels. -/
theorem reads_value (room : Nat) (tree : Tree) : Reads document (value document room tree)
    fun j n => IsValue document.targets tree j n ∧ j.levels ≤ room := by
  rw [value]
  refine ((reads_follow tree).bind (S := fun node j n => IsContent document.targets node j n ∧ j.levels ≤ room)
    fun node => ?_).congr fun j n => ?_
  · cases node with
    | aliasOf number => exact Reads.failure.congr fun j n => ⟨False.elim, fun h => by cases h.1⟩
    | scalar tag text plain =>
      refine (Reads.lift _).congr fun j n => ?_
      constructor
      · rintro ⟨hvalue, rfl⟩
        exact ⟨.scalar hvalue, Nat.le_trans (Nat.le_of_eq (levels_of_scalarValue? hvalue)) (Nat.zero_le room)⟩
      · rintro ⟨⟨hvalue⟩, -⟩
        exact ⟨hvalue, rfl⟩
    | sequence tag items =>
      cases room with
      | zero =>
        refine Reads.failure.congr fun j n => ⟨False.elim, ?_⟩
        rintro ⟨⟨⟩, hlevels⟩
        exact absurd hlevels (Nat.not_succ_le_zero _)
      | succ room =>
        refine (reads_untyped (Reads.mapM (reads_value room) items) tag .array).congr fun j n => ?_
        constructor
        · rintro ⟨untyped, js, rfl, hjs⟩
          obtain ⟨hjs, hlevels⟩ := each_and_iff.1 hjs
          exact ⟨.sequence untyped hjs, Nat.succ_le_succ (Json.levelsOfItems_le_iff.2 hlevels)⟩
        · rintro ⟨hcontent, hlevels⟩
          cases hcontent with
          | sequence untyped hjs =>
            have hlevels := Json.levelsOfItems_le_iff.1 (Nat.le_of_succ_le_succ hlevels)
            exact ⟨untyped, _, rfl, each_and_iff.2 ⟨hjs, hlevels⟩⟩
    | mapping tag entries =>
      cases room with
      | zero =>
        refine Reads.failure.congr fun j n => ⟨False.elim, ?_⟩
        rintro ⟨⟨⟩, hlevels⟩
        exact absurd hlevels (Nat.not_succ_le_zero _)
      | succ room =>
        have hfields := Reads.mapM (fun entry : Tree × Tree => reads_entry (reads_value room) entry.1 entry.2) entries
        refine (reads_untyped hfields tag .object).congr fun j n => ?_
        constructor
        · rintro ⟨untyped, fields, rfl, hfields⟩
          obtain ⟨hfields, hlevels⟩ := each_isEntry_and_iff.1 hfields
          exact ⟨.mapping untyped hfields, Nat.succ_le_succ (Json.levelsOfFields_le_iff.2 hlevels)⟩
        · rintro ⟨hcontent, hlevels⟩
          cases hcontent with
          | mapping untyped hfields =>
            have hlevels := Json.levelsOfFields_le_iff.1 (Nat.le_of_succ_le_succ hlevels)
            exact ⟨untyped, _, rfl, each_isEntry_and_iff.2 ⟨hfields, hlevels⟩⟩
  · constructor
    · rintro ⟨node, first, others, hnode, ⟨hcontent, hlevels⟩, rfl⟩
      exact ⟨.mk hnode hcontent, hlevels⟩
    · rintro ⟨⟨hnode, hcontent⟩, hlevels⟩
      exact ⟨_, _, _, hnode, ⟨hcontent, hlevels⟩, rfl⟩
termination_by room

theorem reads_mapping {γ : Type} {f : Tree × Tree → Reading (String × β)} {R : Tree → β → Nat → Prop}
    (hf : ∀ k v, Reads document (f (k, v)) (IsEntry document.targets R (k, v))) (make : List (String × β) → γ)
    (tree : Tree) : Reads document (do return make (← (← entries document tree).mapM f))
      (IsMapping document.targets R make tree) := by
  refine ((reads_entries tree).bind fun entries => (Reads.mapM (fun entry => hf entry.1 entry.2) entries).bind
    fun fields => Reads.pure (make fields)).congr fun c n => ?_
  constructor
  · rintro ⟨entries, first, others, hentries, ⟨fields, second, none, hfields, ⟨rfl, rfl⟩, rfl⟩, rfl⟩
    exact .mk hentries hfields
  · rintro ⟨hentries, hfields⟩
    exact ⟨_, _, _, hentries, ⟨_, _, 0, hfields, ⟨rfl, rfl⟩, rfl⟩, rfl⟩

theorem reads_row (tree : Tree) : Reads document (row document tree) (IsRow document.targets tree) := by
  refine reads_mapping (fun k v => ?_) OrderedMap.ofList tree
  refine ((reads_key k).bind fun name => (reads_value _ v).bind fun j => Reads.pure (name, Value.ofJson j)).congr
    fun field n => ?_
  constructor
  · rintro ⟨name, first, others, hname, ⟨j, second, none, hj, ⟨rfl, rfl⟩, rfl⟩, rfl⟩
    exact .mk hname (.mk hj.1 (Nat.add_le_of_le_sub (by decide) hj.2))
  · rintro ⟨hname, hvalue, hlevels⟩
    exact ⟨_, _, _, hname, ⟨_, _, 0, ⟨hvalue, Nat.le_sub_of_add_le hlevels⟩, ⟨rfl, rfl⟩, rfl⟩, rfl⟩

theorem reads_table (tree : Tree) : Reads document (table document tree) (IsTable document.targets tree) := by
  refine reads_mapping (fun k v => ?_) (fun sources => Table.mk (.ofList sources)) tree
  refine ((reads_key k).bind fun name => (reads_items v).bind fun items => (Reads.mapM reads_row items).bind
    fun rows => Reads.pure (name, rows)).congr fun source n => ?_
  constructor
  · rintro ⟨name, first, _, hname, ⟨items, second, _, hitems, ⟨rows, third, none, hrows, ⟨rfl, rfl⟩, rfl⟩, rfl⟩, rfl⟩
    exact .mk hname (.mk hitems hrows)
  · rintro ⟨hname, hitems, hrows⟩
    exact ⟨_, _, _, hname, ⟨_, _, _, hitems, ⟨_, _, 0, hrows, ⟨rfl, rfl⟩, rfl⟩, rfl⟩, rfl⟩

/-- Entries behind others give their own table, if those have given none. -/
theorem reads_ofEntries (found : Option Table) (entries : List (Tree × Tree)) :
    Reads document (ofEntries document found entries)
      fun result n => ∃ own, Finds document.targets entries own n ∧ (found = none ∨ own = none) ∧
        result = found.or own := by
  induction entries generalizing found with
  | nil =>
    refine (Reads.pure found).congr fun result n => ?_
    constructor
    · rintro ⟨rfl, rfl⟩
      exact ⟨none, .nil, .inr rfl, by rw [Option.or_none]⟩
    · rintro ⟨own, ⟨⟩, -, rfl⟩
      exact ⟨Option.or_none, rfl⟩
  | cons entry entries ih =>
    obtain ⟨k, v⟩ := entry
    rw [ofEntries]
    refine ((reads_key k).bind (S := fun name result n =>
      (name = "queries" ∧ found = none ∧ ∃ t first others, IsTable document.targets v t first ∧
        Finds document.targets entries none others ∧ result = some t ∧ n = first + others) ∨
      (name ≠ "queries" ∧ ∃ own, Finds document.targets entries own n ∧ (found = none ∨ own = none) ∧
        result = found.or own)) fun name => ?_).congr fun result n => ?_
    · by_cases hname : name = "queries"
      · rw [if_pos hname]
        dsimp only
        cases found with
        | some t =>
          rw [if_pos Option.isSome_some]
          exact Reads.failure.congr fun result n => by simp [hname]
        | none =>
          rw [if_neg (by simp)]
          refine ((reads_table v).bind fun t => ih (some t)).congr fun result n => ?_
          constructor
          · rintro ⟨t, first, others, ht, ⟨own, hown, hnone, rfl⟩, rfl⟩
            cases hnone.resolve_left (by simp)
            exact .inl ⟨hname, rfl, t, first, others, ht, hown, rfl, rfl⟩
          · rintro (⟨-, -, t, first, others, ht, hown, rfl, rfl⟩ | ⟨hother, -⟩)
            · exact ⟨t, first, others, ht, ⟨none, hown, .inr rfl, rfl⟩, rfl⟩
            · exact absurd hname hother
      · rw [if_neg hname]
        exact (ih found).congr fun result n => by simp [hname]
    · constructor
      · rintro ⟨name, first, others, hkey, hrest, rfl⟩
        rcases hrest with ⟨rfl, rfl, t, second, third, ht, hown, rfl, rfl⟩ | ⟨hname, own, hown, hone, rfl⟩
        · exact ⟨some t, .queries hkey ht hown, .inl rfl, rfl⟩
        · exact ⟨own, .other hkey hname hown, hone, rfl⟩
      · rintro ⟨own, hown, hone, rfl⟩
        cases hown with
        | other hkey hname hown => exact ⟨_, _, _, hkey, .inr ⟨hname, _, hown, hone, rfl⟩, rfl⟩
        | queries hkey ht hown =>
          cases hone.resolve_right (by simp)
          exact ⟨_, _, _, hkey, .inl ⟨rfl, rfl, _, _, _, ht, hown, rfl, rfl⟩, rfl⟩

/-- **The root of a document is read as the table that it is**, unless too many aliases are met. -/
theorem ofTree?_eq_some_iff {root : Tree} {targets : Targets} {t : Table} :
    ofTree? root targets = some t ↔ ∃ n ≤ 100 * root.events, IsFile targets root t n := by
  let document : Document := ⟨targets, 100 * root.events⟩
  have hreads : Reads document (do return (← ofEntries document none (← entries document root)).getD .empty)
      (IsFile targets root) := by
    refine ((reads_entries root).bind fun entries => (reads_ofEntries none entries).bind fun found =>
      Reads.pure (found.getD .empty)).congr fun t n => ?_
    constructor
    · rintro ⟨entries, first, others, hentries, ⟨found, second, none, ⟨own, hown, -, rfl⟩, ⟨rfl, rfl⟩, rfl⟩, rfl⟩
      exact .mk hentries hown
    · rintro ⟨hentries, hfinds⟩
      exact ⟨_, _, _, hentries, ⟨_, _, 0, ⟨_, hfinds, .inl rfl, rfl⟩, ⟨rfl, rfl⟩, rfl⟩, rfl⟩
  have hrun : ofTree? root targets =
      ((do return (← ofEntries document none (← entries document root)).getD .empty : Reading Table).run 0).map
        Prod.fst := rfl
  rw [hrun, Option.map_eq_some_iff]
  constructor
  · rintro ⟨⟨t, followed⟩, h, rfl⟩
    obtain ⟨n, hfile, rfl, hbound⟩ := (hreads 0 (Nat.zero_le _) t followed).1 h
    exact ⟨n, by rwa [Nat.zero_add] at hbound, hfile⟩
  · rintro ⟨n, hbound, hfile⟩
    exact ⟨(t, n), (hreads 0 (Nat.zero_le _) t n).2 ⟨n, hfile, Nat.zero_add n, hbound⟩, rfl⟩

end

/-- The content of a file in YAML: no document at all, or one with a table in it that takes few enough aliases. -/
inductive Holds (content : String) : Table → Prop where
  | nothing (text : Node.ofText? content.toList = some none) : Holds content .empty
  | document {node : Node} {root : Tree} {anchors : Anchors} {targets : Targets} {t : Table} {n : Nat}
      (text : Node.ofText? content.toList = some (some node))
      (tree : Tree.ofNode? [] node = some (root, anchors, targets)) (isFile : IsFile targets root t n)
      (follows : n ≤ 100 * root.events) : Holds content t

theorem read?_eq_some_iff {content : String} {t : Table} : read? content = some t ↔ Holds content t := by
  constructor
  · intro h
    rw [read?] at h
    split at h
    case h_1 => cases h
    case h_2 htext =>
      cases h
      exact .nothing htext
    case h_3 node htext =>
      split at h
      case h_1 => cases h
      case h_2 root anchors targets htree =>
        obtain ⟨n, hfollows, hfile⟩ := ofTree?_eq_some_iff.1 h
        exact .document htext htree hfile hfollows
  · intro h
    cases h with
    | nothing htext => rw [read?, htext]
    | document htext htree hfile hfollows =>
      simp only [read?, htext, htree]
      exact ofTree?_eq_some_iff.2 ⟨_, hfollows, hfile⟩

end Environment.YamlFile

namespace Environment.Format

/-- The content of a file in a format, and its table. -/
inductive Holds (content : String) : Format → Table → Prop where
  | json {d : Json.Document} {t : Table} (text : Json.Document.ofText? content.toList = some d)
      (isFile : JsonFile.IsFile d t) : Holds content .json t
  | yaml {t : Table} (holds : YamlFile.Holds content t) : Holds content .yaml t

/-- **Exactly the files of a format are read**, as their tables. -/
theorem read?_eq_some_iff {content : String} {format : Format} {t : Table} :
    format.read? content = some t ↔ Holds content format t := by
  cases format with
  | json =>
    rw [read?, JsonFile.read?, Option.bind_eq_some_iff]
    constructor
    · rintro ⟨d, hd, ht⟩
      exact .json hd (JsonFile.ofDocument?_eq_some_iff.1 ht)
    · rintro ⟨hd, ht⟩
      exact ⟨_, hd, JsonFile.ofDocument?_eq_some_iff.2 ht⟩
  | yaml =>
    rw [read?, YamlFile.read?_eq_some_iff]
    constructor
    · exact .yaml
    · intro h
      cases h with
      | yaml holds => exact holds

end Environment.Format

end PropertyExpr
