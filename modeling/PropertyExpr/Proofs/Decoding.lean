import Mathlib.Data.List.Forall2
import PropertyExpr.Proofs.Interchange
import PropertyExpr.Proofs.OrderedJson
/-!
# What is read as a tree

`Json.IsTree` says which values are trees, whatever further keys their objects have, and `Json.nodes` lists the nodes
of a value in the order in which they are looked at: a node before its operands, the left one before the right one.
`readings_of_json` — exactly the trees are read, the tree that is read has the JSON form of the value without the
further keys (`Json.pruned`), and the error for any other value is that of its first node at fault (`offence?`). A
template is read in the same way from the items of an array. Of a text, the fields of its value are in order, so all of
this holds of what is read from it (`Expr.ofText_eq_ok_iff`, `Template.ofText_eq_ok_iff`).
-/
namespace PropertyExpr

namespace Expr

/-! ## Nodes -/

/-- The type that an object says it has. -/
def type? (fields : List (String × Json)) : Option String := (Json.field? fields "type").bind Json.string?

/-- An attribute that a reference must have, what it must be, and what is said if it is not. -/
structure Attribute where
  key : String
  fits : Json → Bool
  reason : String

namespace Attribute

/-- The attributes in the order in which they are looked at. -/
def all : List Attribute :=
  [⟨"name", fun j => j.string?.isSome, "reference name must be a string"⟩,
    ⟨"rank", fun j => j.int64?.isSome, "reference rank must be an integer"⟩,
    ⟨"field", fun j => j.string?.isSome, "reference field must be a string"⟩]

/-- The attribute is missing or of the wrong type. -/
def isWrong (fields : List (String × Json)) (a : Attribute) : Bool := !(Json.field? fields a.key).any a.fits

end Attribute

/-- What is wrong with a node by itself, whatever its operands are; `none` is the node of a missing operand. -/
def offence? : Option Json → Option TreeError
  | none => some (.unrecognized "undefined")
  | some (.int n) =>
    if Int64.minValue.toInt ≤ n ∧ n ≤ Int64.maxValue.toInt then none else some (.unrecognized (Json.int n).text)
  | some (.string _) => none
  | some (.object fields) =>
    if type? fields = some "ref" then
      (Attribute.all.find? (Attribute.isWrong fields)).map fun a => .invalid (Json.object fields).text a.reason
    else if ((type? fields).bind Operator.ofSymbol?).isSome then none
    else some (.unrecognized (Json.object fields).text)
  | some j => some (.unrecognized j.text)

end Expr

namespace Json

open PropertyExpr.Expr (type?)

mutual
/-- The nodes of a value, each before its operands. -/
def nodes : Json → List (Option Json)
  | object fields =>
    some (object fields) ::
      if ((type? fields).bind Operator.ofSymbol?).isSome then operandNodes "left" fields ++ operandNodes "right" fields
      else []
  | j => [some j]
/-- The nodes of the operand under a key. -/
def operandNodes (key : String) : List (String × Json) → List (Option Json)
  | [] => [none]
  | (k, j) :: fields => if k = key then nodes j else operandNodes key fields
end

/-- The keys that say something in an object. -/
def telling (fields : List (String × Json)) : List String :=
  if type? fields = some "ref" then ["type", "name", "rank", "field"] else ["type", "left", "right"]

mutual
/-- A value without the keys that say nothing, at every level. -/
def pruned : Json → Json
  | object fields => object (prunedFields (telling fields) fields)
  | j => j
def prunedFields (keys : List String) : List (String × Json) → List (String × Json)
  | [] => []
  | (k, j) :: fields =>
    if k ∈ keys then (k, j.pruned) :: prunedFields keys fields else prunedFields keys fields
end

/-- The value is the given tree; its objects may have further keys. -/
inductive IsTree : Json → Expr → Prop where
  | number {n : Int} {value : Int64} (fits : value.toInt = n) : IsTree (.int n) (.number value)
  | string (s : String) : IsTree (.string s) (.string s)
  | ref {fields : List (String × Json)} {r : Reference} (type : field? fields "type" = some (.string "ref"))
      (name : field? fields "name" = some (.string r.name)) (rank : field? fields "rank" = some (.int r.rank.toInt))
      (field : field? fields "field" = some (.string r.field)) : IsTree (.object fields) (.ref r)
  | binary {fields : List (String × Json)} {op : Operator} {left right : Json} {l r : Expr}
      (type : field? fields "type" = some (.string op.symbol)) (left_eq : field? fields "left" = some left)
      (right_eq : field? fields "right" = some right) (isTree_left : IsTree left l) (isTree_right : IsTree right r) :
      IsTree (.object fields) (.binary op l r)

/-- The value is the given item of a template. A string is text. -/
inductive IsSegment : Json → Segment → Prop where
  | text (s : String) : IsSegment (.string s) (.text s)
  | code {j : Json} {e : Expr} (not_string : ∀ s, j ≠ .string s) (isTree : j.IsTree e) : IsSegment j (.code e)

/-- The value is the given template. -/
inductive IsTemplate : Json → Template → Prop where
  | literal (s : String) : IsTemplate (.string s) (.literal s)
  | composite {items : List Json} {segments : List Segment} (items_eq : List.Forall₂ IsSegment items segments) :
      IsTemplate (.array items) (.composite segments)
  | single {j : Json} {e : Expr} (not_string : ∀ s, j ≠ .string s) (isTree : j.IsTree e) : IsTemplate j (.single e)

/-- The items that a template is read from. -/
def items : Json → List Json
  | array items => items
  | j => [j]

/-- A value without the keys that say nothing in its items. -/
def prunedItems : Json → Json
  | array items => array (items.map pruned)
  | j => j.pruned

end Json

namespace Expr

open Json (field?)

/-! ## Looking at one object -/

section
variable {fields : List (String × Json)} {key s : String} {j : Json} {e : Expr}

theorem string?_eq_some_iff {o : Option Json} : o.bind Json.string? = some s ↔ o = some (.string s) := by
  cases o with
  | none => simp
  | some j => cases j <;> simp [Json.string?]

theorem int64?_eq_some_iff {o : Option Json} {n : Int64} : o.bind Json.int64? = some n ↔ o = some (.int n.toInt) := by
  cases o with
  | none => simp
  | some j =>
    cases j with
    | int m =>
      rw [Option.bind_some, Json.int64?, Number.int64?_eq_some_iff, Option.some.injEq, Json.int.injEq]
      exact eq_comm
    | _ => simp [Json.int64?]

theorem ofSymbol?_eq_some_iff {op : Operator} : Operator.ofSymbol? s = some op ↔ s = op.symbol := by
  constructor
  · intro h
    rw [Operator.ofSymbol?.eq_def] at h
    split at h <;> cases h <;> rfl
  · rintro rfl
    exact ofSymbol?_symbol op

theorem tag_eq_ref_iff : tag fields = "ref" ↔ type? fields = some "ref" := by
  rw [tag, type?]
  cases h : (field? fields "type").bind Json.string? with
  | none => simp
  | some s => simp

theorem ofSymbol?_tag : Operator.ofSymbol? (tag fields) = (type? fields).bind Operator.ofSymbol? := by
  rw [tag, type?]
  cases h : (field? fields "type").bind Json.string? with
  | none => rfl
  | some s => rfl

/-- A missing operand is an error; any other is read. -/
theorem operand_eq (key : String) (fields : List (String × Json)) :
    operand key fields = (field? fields key).elim (.error (.unrecognized "undefined")) ofJson := by
  induction fields with
  | nil => rfl
  | cons f fields ih =>
    obtain ⟨k, j⟩ := f
    rw [operand, Json.field?_cons]
    by_cases hk : k = key
    · rw [if_pos hk, if_pos hk.symm, Option.elim_some]
    · rw [if_neg hk, if_neg (Ne.symm hk), ih]

/-- The reference that an object is has the three attributes and no other. -/
theorem referenceOfFields_eq_ok_iff : referenceOfFields fields = .ok e ↔
    ∃ r : Reference, e = .ref r ∧ field? fields "name" = some (.string r.name) ∧
      field? fields "rank" = some (.int r.rank.toInt) ∧ field? fields "field" = some (.string r.field) := by
  constructor
  · intro h
    rw [referenceOfFields] at h
    split at h
    case h_1 => cases h
    case h_2 name hname =>
      split at h
      case h_1 => cases h
      case h_2 rank hrank =>
        split at h
        case h_1 => cases h
        case h_2 field hfield =>
          cases h
          exact ⟨⟨name, rank, field⟩, rfl, string?_eq_some_iff.1 hname, int64?_eq_some_iff.1 hrank,
            string?_eq_some_iff.1 hfield⟩
  · rintro ⟨r, rfl, hname, hrank, hfield⟩
    rw [referenceOfFields, string?_eq_some_iff.2 hname, int64?_eq_some_iff.2 hrank, string?_eq_some_iff.2 hfield]

end

/-! ## The first node at fault -/

/-- The error, if it is one. -/
def error? {α : Type} : Except TreeError α → Option TreeError
  | .error err => some err
  | .ok _ => none

section
variable {α β : Type} {fields : List (String × Json)} {err : TreeError}

theorem error?_eq_some_iff {x : Except TreeError α} : error? x = some err ↔ x = .error err := by
  cases x <;> simp [error?]

theorem error?_map (f : α → β) (x : Except TreeError α) : error? (x.map f) = error? x := by
  cases x <;> rfl

theorem any_isSome {o : Option Json} {f : Json → Option α} :
    o.any (fun j => (f j).isSome) = (o.bind f).isSome := by
  cases o <;> rfl

/-- The error of a reference is about its first attribute that is missing or of the wrong type. -/
theorem error?_referenceOfFields (fields : List (String × Json)) :
    error? (referenceOfFields fields) =
      (Attribute.all.find? (Attribute.isWrong fields)).map fun a =>
        .invalid (Json.object fields).text a.reason := by
  rw [referenceOfFields, Attribute.all]
  simp only [List.find?_cons, List.find?_nil, Attribute.isWrong, any_isSome]
  cases (field? fields "name").bind Json.string? with
  | none => rfl
  | some name =>
    cases (field? fields "rank").bind Json.int64? with
    | none => rfl
    | some rank => cases (field? fields "field").bind Json.string? <;> rfl

mutual
/-- **The error of a value is that of its first node at fault.** -/
theorem error?_ofJson : (j : Json) → error? (ofJson j) = j.nodes.findSome? offence?
  | .int n => by
    have hnodes : (Json.int n).nodes = [some (.int n)] := rfl
    rw [ofJson, hnodes, List.findSome?_cons, List.findSome?_nil, offence?, Json.int64?, Number.int64?]
    by_cases h : Int64.minValue.toInt ≤ n ∧ n ≤ Int64.maxValue.toInt
    · rw [if_pos h, if_pos h]
      rfl
    · rw [if_neg h, if_neg h]
      rfl
  | .string s => rfl
  | .object fields => by
    have hleft := error?_operand "left" fields
    have hright := error?_operand "right" fields
    rw [ofJson, Json.nodes, List.findSome?_cons, offence?, ofSymbol?_tag]
    by_cases href : type? fields = some "ref"
    · have hnone : (type? fields).bind Operator.ofSymbol? = none := by rw [href]; rfl
      rw [if_pos (tag_eq_ref_iff.2 href), if_pos href, hnone, error?_referenceOfFields]
      cases Attribute.all.find? (Attribute.isWrong fields) <;> rfl
    · rw [if_neg (mt tag_eq_ref_iff.1 href), if_neg href]
      cases (type? fields).bind Operator.ofSymbol? with
      | none => rfl
      | some op =>
        simp only [Option.isSome_some, if_true, List.findSome?_append, ← hleft, ← hright]
        cases operand "left" fields with
        | error err => rfl
        | ok left => cases operand "right" fields <;> rfl
  | .null | .bool _ | .float _ | .array _ => rfl
theorem error?_operand (key : String) : (fields : List (String × Json)) →
    error? (operand key fields) = (Json.operandNodes key fields).findSome? offence?
  | [] => rfl
  | (k, j) :: fields => by
    rw [operand, Json.operandNodes]
    split
    · exact error?_ofJson j
    · exact error?_operand key fields
end

/-! ## Exactly the trees -/

theorem ofJson_of_isTree {j : Json} {e : Expr} (h : j.IsTree e) : ofJson j = .ok e := by
  induction h with
  | @number n value fits =>
    have hint : (Json.int n).int64? = some value := Number.int64?_eq_some_iff.2 fits
    rw [ofJson, hint]
  | string s => rfl
  | @ref fields r type name rank field =>
    have htype : type? fields = some "ref" := string?_eq_some_iff.2 type
    rw [ofJson, if_pos (tag_eq_ref_iff.2 htype)]
    exact referenceOfFields_eq_ok_iff.2 ⟨r, rfl, name, rank, field⟩
  | @binary fields op left right l r type left_eq right_eq isTree_left isTree_right ihl ihr =>
    have htype : type? fields = some op.symbol := string?_eq_some_iff.2 type
    have hop : (type? fields).bind Operator.ofSymbol? = some op := by
      rw [htype, Option.bind_some, ofSymbol?_symbol]
    have href : ¬ tag fields = "ref" := by
      rw [tag_eq_ref_iff, htype]
      cases op <;> decide
    rw [ofJson, if_neg href, ofSymbol?_tag, hop, operand_eq, operand_eq, left_eq, right_eq, Option.elim_some,
      Option.elim_some, ihl, ihr]

mutual
theorem isTree_of_ofJson : (j : Json) → (e : Expr) → ofJson j = .ok e → j.IsTree e
  | .int n, e, h => by
    rw [ofJson] at h
    split at h
    case h_1 value hvalue =>
      cases h
      exact .number (Number.int64?_eq_some_iff.1 hvalue)
    case h_2 => cases h
  | .string s, e, h => by
    cases h
    exact .string s
  | .object fields, e, h => by
    rw [ofJson, ofSymbol?_tag] at h
    by_cases href : type? fields = some "ref"
    · rw [if_pos (tag_eq_ref_iff.2 href)] at h
      obtain ⟨r, rfl, name, rank, field⟩ := referenceOfFields_eq_ok_iff.1 h
      exact .ref (string?_eq_some_iff.1 href) name rank field
    · rw [if_neg (mt tag_eq_ref_iff.1 href)] at h
      split at h
      case h_1 => cases h
      case h_2 op hop =>
        split at h
        case h_1 => cases h
        case h_2 l hl =>
          split at h
          case h_1 => cases h
          case h_2 r hr =>
            cases h
            obtain ⟨s, hs, hsymbol⟩ := Option.bind_eq_some_iff.1 hop
            have htype : type? fields = some op.symbol := by rw [hs, ofSymbol?_eq_some_iff.1 hsymbol]
            obtain ⟨left, hleft, treel⟩ := isTree_of_operand "left" fields l hl
            obtain ⟨right, hright, treer⟩ := isTree_of_operand "right" fields r hr
            exact .binary (string?_eq_some_iff.1 htype) hleft hright treel treer
theorem isTree_of_operand (key : String) : (fields : List (String × Json)) → (e : Expr) →
    operand key fields = .ok e → ∃ j, field? fields key = some j ∧ j.IsTree e
  | (k, j) :: fields, e, h => by
    rw [operand] at h
    rw [Json.field?_cons]
    by_cases hk : k = key
    · rw [if_pos hk] at h
      exact ⟨j, if_pos hk.symm, isTree_of_ofJson j e h⟩
    · rw [if_neg hk] at h
      rw [if_neg (Ne.symm hk)]
      exact isTree_of_operand key fields e h
end

/-- **Exactly the trees are read.** -/
theorem ofJson_eq_ok_iff {j : Json} {e : Expr} : ofJson j = .ok e ↔ j.IsTree e :=
  ⟨isTree_of_ofJson j e, ofJson_of_isTree⟩

/-! ## The form of the tree that is read -/

theorem field?_prunedFields {keys : List String} {k : String} (fields : List (String × Json)) :
    field? (Json.prunedFields keys fields) k = if k ∈ keys then (field? fields k).map Json.pruned else none := by
  induction fields with
  | nil => exact (ite_self none).symm
  | cons f fields ih =>
    obtain ⟨key, j⟩ := f
    rw [Json.prunedFields, Json.field?_cons]
    by_cases hkey : key ∈ keys
    · rw [if_pos hkey, Json.field?_cons, ih]
      by_cases hk : k = key
      · rw [if_pos hk, if_pos hk, if_pos (hk ▸ hkey), Option.map_some]
      · rw [if_neg hk, if_neg hk]
    · rw [if_neg hkey, ih]
      by_cases hk : k = key
      · rw [if_neg (hk ▸ hkey), if_neg (hk ▸ hkey)]
      · rw [if_neg hk]

theorem sublist_keys_prunedFields (keys : List String) (fields : List (String × Json)) :
    ((Json.prunedFields keys fields).map Prod.fst).Sublist (fields.map Prod.fst) := by
  induction fields with
  | nil => exact .slnil
  | cons f fields ih =>
    obtain ⟨key, j⟩ := f
    rw [Json.prunedFields]
    split
    · exact ih.cons_cons key
    · exact ih.cons key

theorem pairwise_prunedFields {keys : List String} {fields : List (String × Json)}
    (h : (fields.map Prod.fst).Pairwise (· < ·)) : ((Json.prunedFields keys fields).map Prod.fst).Pairwise (· < ·) :=
  h.sublist (sublist_keys_prunedFields keys fields)

/-- Fields in order that are all found, and are all that says something, are what is left. -/
theorem eq_prunedFields {keys : List String} {fields kept : List (String × Json)}
    (ordered : (fields.map Prod.fst).Pairwise (· < ·)) (hordered : (kept.map Prod.fst).Pairwise (· < ·))
    (hkeys : keys.Perm (kept.map Prod.fst))
    (hfound : ∀ f ∈ kept, (field? fields f.1).map Json.pruned = some f.2) :
    kept = Json.prunedFields keys fields := by
  refine Json.eq_of_field?_eq hordered (pairwise_prunedFields ordered) fun k => ?_
  rw [field?_prunedFields]
  by_cases hk : k ∈ keys
  · obtain ⟨f, hf, rfl⟩ := List.mem_map.1 (hkeys.mem_iff.1 hk)
    rw [if_pos hk, hfound f hf]
    exact (OrderedMap.lookup_eq_some_iff (hordered.imp fun h => ne_of_lt h)).2 hf
  · rw [if_neg hk]
    exact Json.field?_eq_none (mt hkeys.mem_iff.2 hk)

/-- **The tree that is read has the JSON form of the value without the keys that say nothing.** -/
theorem toJson_of_isTree {j : Json} {e : Expr} (h : j.IsTree e) (ordered : j.Ordered) : e.toJson = j.pruned := by
  induction h with
  | number fits => rw [toJson, fits]; rfl
  | string s => rfl
  | @ref fields r type name rank field =>
    have htype : type? fields = some "ref" := string?_eq_some_iff.2 type
    have hpairwise : ["field", "name", "rank", "type"].Pairwise (· < ·) := by decide
    have hperm : ["type", "name", "rank", "field"].Perm ["field", "name", "rank", "type"] := by decide
    rw [toJson, Reference.toJson, Json.pruned, Json.telling, if_pos htype]
    refine congrArg Json.object (eq_prunedFields ordered.1 hpairwise hperm fun f hf => ?_)
    simp only [List.mem_cons, List.not_mem_nil, or_false] at hf
    rcases hf with rfl | rfl | rfl | rfl
    · rw [field]; rfl
    · rw [name]; rfl
    · rw [rank]; rfl
    · rw [type]; rfl
  | @binary fields op left right l r type left_eq right_eq isTree_left isTree_right ihl ihr =>
    have htype : ¬ type? fields = some "ref" := by
      rw [type?, string?_eq_some_iff.2 type]
      cases op <;> decide
    have hpairwise : ["left", "right", "type"].Pairwise (· < ·) := by decide
    have hperm : ["type", "left", "right"].Perm ["left", "right", "type"] := by decide
    rw [toJson, ihl (ordered.2.of_field? left_eq), ihr (ordered.2.of_field? right_eq), Json.pruned, Json.telling,
      if_neg htype]
    refine congrArg Json.object (eq_prunedFields ordered.1 hpairwise hperm fun f hf => ?_)
    simp only [List.mem_cons, List.not_mem_nil, or_false] at hf
    rcases hf with rfl | rfl | rfl
    · rw [left_eq]; rfl
    · rw [right_eq]; rfl
    · rw [type]; rfl

end

end Expr

/-! ## Templates -/

namespace Template

open PropertyExpr.Expr (error? offence?)

section
variable {j : Json} {items : List Json} {segments : List Segment}

theorem segment_ofJson (h : ∀ s, j ≠ .string s) : Segment.ofJson j = (Expr.ofJson j).map .code := by
  cases j with
  | string s => exact absurd rfl (h s)
  | _ => rfl

theorem map_eq_ok_iff {α β : Type} {f : α → β} {x : Except TreeError α} {b : β} :
    x.map f = .ok b ↔ ∃ a, x = .ok a ∧ f a = b := by
  cases x <;> simp [Except.map]

theorem segment_ofJson_eq_ok_iff {segment : Segment} : Segment.ofJson j = .ok segment ↔ j.IsSegment segment := by
  constructor
  · intro h
    by_cases hs : ∃ s, j = .string s
    · obtain ⟨s, rfl⟩ := hs
      cases h
      exact .text s
    · have hs' : ∀ s, j ≠ .string s := fun s h => hs ⟨s, h⟩
      rw [segment_ofJson hs'] at h
      obtain ⟨e, he, rfl⟩ := map_eq_ok_iff.1 h
      exact .code hs' (Expr.ofJson_eq_ok_iff.1 he)
  · rintro (s | ⟨hs, tree⟩)
    · rfl
    · rw [segment_ofJson hs, Expr.ofJson_of_isTree tree]
      rfl

theorem error?_segment (j : Json) : error? (Segment.ofJson j) = j.nodes.findSome? offence? := by
  by_cases hs : ∃ s, j = .string s
  · obtain ⟨s, rfl⟩ := hs
    rfl
  · rw [segment_ofJson fun s h => hs ⟨s, h⟩, Expr.error?_map, Expr.error?_ofJson]

theorem segmentsOfJson_eq_ok_iff :
    segmentsOfJson items = .ok segments ↔ List.Forall₂ Json.IsSegment items segments := by
  induction items generalizing segments with
  | nil =>
    rw [segmentsOfJson, List.forall₂_nil_left_iff, Except.ok.injEq]
    exact eq_comm
  | cons j items ih =>
    rw [segmentsOfJson, List.forall₂_cons_left_iff]
    constructor
    · intro h
      split at h
      case h_1 => cases h
      case h_2 segment hsegment =>
        split at h
        case h_1 => cases h
        case h_2 rest hrest =>
          cases h
          exact ⟨segment, rest, segment_ofJson_eq_ok_iff.1 hsegment, ih.1 hrest, rfl⟩
    · rintro ⟨segment, rest, hsegment, hrest, rfl⟩
      rw [segment_ofJson_eq_ok_iff.2 hsegment, ih.2 hrest]

/-- The error of an array is that of the first node at fault in its items, taken in order. -/
theorem error?_segmentsOfJson (items : List Json) :
    error? (segmentsOfJson items) = (items.flatMap Json.nodes).findSome? offence? := by
  induction items with
  | nil => rfl
  | cons j items ih =>
    rw [segmentsOfJson, List.flatMap_cons, List.findSome?_append, ← error?_segment, ← ih]
    cases Segment.ofJson j with
    | error err => rfl
    | ok segment => cases segmentsOfJson items <;> rfl

theorem toJson_of_forall₂ (h : List.Forall₂ Json.IsSegment items segments) (ordered : Json.OrderedItems items) :
    segments.map Segment.toJson = items.map Json.pruned := by
  induction h with
  | nil => rfl
  | @cons j segment items segments hj hitems ih =>
    rw [List.map_cons, List.map_cons, ih ordered.2]
    congr 1
    cases hj with
    | text s => rfl
    | code hs tree => exact Expr.toJson_of_isTree tree ordered.1

theorem ofJson_eq_map (hstring : ∀ s, j ≠ .string s) (harray : ∀ items, j ≠ .array items) :
    ofJson j = (Expr.ofJson j).map .single := by
  cases j with
  | string s => exact absurd rfl (hstring s)
  | array items => exact absurd rfl (harray items)
  | _ => rfl

theorem ofJson_eq_ok_iff {t : Template} : ofJson j = .ok t ↔ j.IsTemplate t := by
  constructor
  · intro h
    cases j with
    | string s =>
      cases h
      exact .literal s
    | array items =>
      obtain ⟨segments, hsegments, rfl⟩ := map_eq_ok_iff.1 h
      exact .composite (segmentsOfJson_eq_ok_iff.1 hsegments)
    | _ =>
      obtain ⟨e, he, rfl⟩ := map_eq_ok_iff.1 ((ofJson_eq_map (by simp) (by simp)).symm.trans h)
      exact .single (by simp) (Expr.ofJson_eq_ok_iff.1 he)
  · rintro (s | hitems | ⟨hs, tree⟩)
    · rfl
    · rw [ofJson, segmentsOfJson_eq_ok_iff.2 hitems]
      rfl
    · have harray : ∀ items, j ≠ .array items := by
        rintro items rfl
        cases tree
      rw [ofJson_eq_map hs harray, Expr.ofJson_of_isTree tree]
      rfl

theorem error?_ofJson (j : Json) : error? (ofJson j) = (j.items.flatMap Json.nodes).findSome? offence? := by
  have hsingle (j : Json) : [j].flatMap Json.nodes = j.nodes := List.flatMap_singleton Json.nodes j
  cases j with
  | string s => rfl
  | array items => exact (Expr.error?_map _ _).trans (error?_segmentsOfJson items)
  | _ =>
    rw [ofJson_eq_map (by simp) (by simp), Expr.error?_map, Expr.error?_ofJson, Json.items, hsingle]
    all_goals simp

theorem toJson_of_isTemplate {t : Template} (h : j.IsTemplate t) (ordered : j.Ordered) : t.toJson = j.prunedItems := by
  cases h with
  | literal s => rfl
  | composite hitems => exact congrArg Json.array (toJson_of_forall₂ hitems ordered)
  | single hs tree =>
    have hj : j.prunedItems = j.pruned := by cases tree <;> rfl
    rw [hj]
    exact Expr.toJson_of_isTree tree ordered

end

end Template

/-- **What is read from JSON is settled by the nodes of the value.** Exactly the trees are read, and the tree has the
form of the value without the keys that say nothing; the error is that of the first node at fault, in the order node,
left operand, right operand. A template is read in the same way from its items, one after the other, and an array
among the nodes of an item is never read. -/
theorem readings_of_json (j : Json) :
    (∀ e, Expr.ofJson j = .ok e ↔ j.IsTree e) ∧
    (∀ e, j.Ordered → Expr.ofJson j = .ok e → e.toJson = j.pruned) ∧
    (∀ err, Expr.ofJson j = .error err ↔ j.nodes.findSome? Expr.offence? = some err) ∧
    (∀ t, Template.ofJson j = .ok t ↔ j.IsTemplate t) ∧
    (∀ t, j.Ordered → Template.ofJson j = .ok t → t.toJson = j.prunedItems) ∧
    (∀ err, Template.ofJson j = .error err ↔ (j.items.flatMap Json.nodes).findSome? Expr.offence? = some err) ∧
    (∀ inner, some (.array inner) ∈ j.items.flatMap Json.nodes → ∃ err, Template.ofJson j = .error err) := by
  refine ⟨fun e => Expr.ofJson_eq_ok_iff, fun e ordered h => ?_, fun err => ?_, fun t => Template.ofJson_eq_ok_iff,
    fun t ordered h => ?_, fun err => ?_, fun inner h => ?_⟩
  · exact Expr.toJson_of_isTree (Expr.ofJson_eq_ok_iff.1 h) ordered
  · rw [← Expr.error?_ofJson, Expr.error?_eq_some_iff]
  · exact Template.toJson_of_isTemplate (Template.ofJson_eq_ok_iff.1 h) ordered
  · rw [← Template.error?_ofJson, Expr.error?_eq_some_iff]
  · have hfault : ((j.items.flatMap Json.nodes).findSome? Expr.offence?).isSome := by
      rw [List.findSome?_isSome_iff]
      exact ⟨_, h, rfl⟩
    obtain ⟨err, herr⟩ := Option.isSome_iff_exists.1 hfault
    exact ⟨err, Expr.error?_eq_some_iff.1 ((Template.error?_ofJson j).trans herr)⟩

/-- Keys that say nothing do not keep a reference from being read, and are not written again. -/
theorem json_of_noted_reference :
    let j := Json.object [("field", .string "b"), ("name", .string "a"), ("note", .null), ("rank", .int 1),
      ("type", .string "ref")]
    j.Ordered ∧ Expr.ofJson j = .ok (.ref ⟨"a", 1, "b"⟩) ∧ (Expr.ref ⟨"a", 1, "b"⟩).toJson = j.pruned ∧
      some (.array []) ∈ (Json.array [.int 1, .array []]).items.flatMap Json.nodes ∧
      ∃ err, Template.ofJson (.array [.int 1, .array []]) = .error err := by
  intro j
  have hkeys : ["field", "name", "note", "rank", "type"].Pairwise (· < ·) := by decide
  have hj : j.Ordered := ⟨hkeys, trivial, trivial, trivial, trivial, trivial, trivial⟩
  have hread : Expr.ofJson j = .ok (.ref ⟨"a", 1, "b"⟩) := rfl
  have hmem : some (.array []) ∈ (Json.array [.int 1, .array []]).items.flatMap Json.nodes :=
    List.mem_cons_of_mem _ (List.mem_singleton.2 rfl)
  have hsingle := readings_of_json j
  have harray := readings_of_json (.array [.int 1, .array []])
  exact ⟨hj, hread, hsingle.2.1 _ hj hread, hmem, harray.2.2.2.2.2.2 _ hmem⟩

/-! ## What is read from a text -/

/-- What is read from a text is what its value is converted to. -/
theorem Json.readAs_eq_ok_iff {ε α : Type} {convert : Json → Except ε α} {s : String} {a : α} :
    readAs convert s = .ok a ↔ ∃ j, ofText? s = some j ∧ convert j = .ok a := by
  rw [readAs, ofText?, read?, Document.ofText?]
  cases Document.front? s.toList with
  | none => simp
  | some front =>
    obtain ⟨d, rest⟩ := front
    cases hvalue : d.toJson? maxDepth with
    | none => cases hblank : rest.all Token.isBlank <;> simp [hblank, hvalue]
    | some value =>
      cases hconvert : convert value.sorted with
      | error e => cases hblank : rest.all Token.isBlank <;> simp [hblank, hvalue, hconvert]
      | ok b => cases hblank : rest.all Token.isBlank <;> simp [hblank, hvalue, hconvert]

/-- **The texts that are read as a tree** are those whose value is the tree, and the tree has the form of that value
without the keys that say nothing. -/
theorem Expr.ofText_eq_ok_iff {s : String} {e : Expr} :
    ofText s = .ok e ↔ ∃ j, Json.ofText? s = some j ∧ j.IsTree e ∧ e.toJson = j.pruned := by
  rw [ofText, Json.readAs_eq_ok_iff]
  refine exists_congr fun j => and_congr_right fun hvalue => ?_
  rw [ofJson_eq_ok_iff]
  exact ⟨fun h => ⟨h, toJson_of_isTree h (Json.ordered_of_ofText? hvalue)⟩, And.left⟩

/-- **The texts that are read as a template** are those whose value is the template. -/
theorem Template.ofText_eq_ok_iff {s : String} {t : Template} :
    ofText s = .ok t ↔ ∃ j, Json.ofText? s = some j ∧ j.IsTemplate t ∧ t.toJson = j.prunedItems := by
  rw [ofText, Json.readAs_eq_ok_iff]
  refine exists_congr fun j => and_congr_right fun hvalue => ?_
  rw [ofJson_eq_ok_iff]
  exact ⟨fun h => ⟨h, toJson_of_isTemplate h (Json.ordered_of_ofText? hvalue)⟩, And.left⟩

end PropertyExpr
