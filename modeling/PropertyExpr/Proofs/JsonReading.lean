import PropertyExpr.Proofs.JsonTokens
/-!
# Written JSON is read back

`ofText?_pretty` — a value without doubles that is written over several lines is read as the same value with its
keys in order, or refused if more arrays and objects are open in it than the reader allows. `Leads` relates two
points of reading with a stack, so what is written inside a value is read inside any other.
-/
namespace PropertyExpr.Json

open Token (first?)

/-! ## Values and their documents -/

mutual
/-- No number in the value is a double, and all fit 64 bits. -/
def Whole : Json → Prop
  | int n => Int64.minValue.toInt ≤ n ∧ n < UInt64.size
  | float _ => False
  | array items => WholeItems items
  | object fields => WholeFields fields
  | null | bool _ | string _ => True
def WholeItems : List Json → Prop
  | [] => True
  | j :: items => j.Whole ∧ WholeItems items
def WholeFields : List (String × Json) → Prop
  | [] => True
  | (_, j) :: fields => j.Whole ∧ WholeFields fields
end

theorem whole_toInt (i : Int64) : (int i.toInt).Whole := by
  have upper := i.toInt_lt
  exact ⟨i.minValue_le_toInt, by simp only [UInt64.size]; omega⟩

mutual
/-- How many arrays and objects are open at once in a value. -/
def levels : Json → Nat
  | array items => levelsOfItems items + 1
  | object fields => levelsOfFields fields + 1
  | null | bool _ | int _ | float _ | string _ => 0
def levelsOfItems : List Json → Nat
  | [] => 0
  | j :: items => max j.levels (levelsOfItems items)
def levelsOfFields : List (String × Json) → Nat
  | [] => 0
  | (_, j) :: fields => max j.levels (levelsOfFields fields)
end

mutual
/-- The document that a written value is read as; there is none for doubles. -/
def document : Json → Document
  | null | float _ => .null
  | bool b => .bool b
  | int n => .number (integerLiteral n)
  | string s => .string (unitsOf s)
  | array items => .array (documentItems items)
  | object fields => .object (documentFields fields)
def documentItems : List Json → List Document
  | [] => []
  | j :: items => j.document :: documentItems items
def documentFields : List (String × Json) → List (List StringUnit × Document)
  | [] => []
  | (key, j) :: fields => (unitsOf key, j.document) :: documentFields fields
end

mutual
/-- A document has its value as long as the levels suffice. -/
theorem toJson?_document : ∀ (j : Json) (room : Nat), j.Whole →
    j.document.toJson? room = if j.levels ≤ room then some j else none
  | null, room, _ => by simp [document, Document.toJson?, levels]
  | bool b, room, _ => by simp [document, Document.toJson?, levels]
  | int n, room, h => by simp [document, Document.toJson?, levels, toJson?_integerLiteral h.1 h.2]
  | float _, _, h => h.elim
  | string s, room, _ => by simp [document, Document.toJson?, levels, decodeString?_unitsOf]
  | array items, 0, _ => by simp [document, Document.toJson?, levels]
  | array items, room + 1, h => by
    rw [document, Document.toJson?, toItems?_document items room h, levels]
    by_cases hle : levelsOfItems items ≤ room <;> simp [hle]
  | object fields, 0, _ => by simp [document, Document.toJson?, levels]
  | object fields, room + 1, h => by
    rw [document, Document.toJson?, toFields?_document fields room h, levels]
    by_cases hle : levelsOfFields fields ≤ room <;> simp [hle]

theorem toItems?_document : ∀ (items : List Json) (room : Nat), WholeItems items →
    Document.toItems? room (documentItems items) = if levelsOfItems items ≤ room then some items else none
  | [], room, _ => by simp [documentItems, Document.toItems?, levelsOfItems]
  | j :: items, room, h => by
    rw [documentItems, Document.toItems?, toJson?_document j room h.1, toItems?_document items room h.2, levelsOfItems]
    simp only [Nat.max_le]
    by_cases hj : j.levels ≤ room <;> by_cases hitems : levelsOfItems items ≤ room <;> simp [hj, hitems]

theorem toFields?_document : ∀ (fields : List (String × Json)) (room : Nat), WholeFields fields →
    Document.toFields? room (documentFields fields) = if levelsOfFields fields ≤ room then some fields else none
  | [], room, _ => by simp [documentFields, Document.toFields?, levelsOfFields]
  | (key, j) :: fields, room, h => by
    rw [documentFields, Document.toFields?, decodeString?_unitsOf, toJson?_document j room h.1,
      toFields?_document fields room h.2, levelsOfFields]
    simp only [Nat.max_le]
    by_cases hj : j.levels ≤ room <;> by_cases hfields : levelsOfFields fields ≤ room <;> simp [hj, hfields]
end

/-! ## Reading on -/

namespace Document

variable {state state' state'' : State} {frames frames' frames'' : List Frame} {cs cs' cs'' rest : List Char}

/-- Reading goes on: it is not at the end of a document. -/
def GoesOn (state : State) (frames : List Frame) : Prop := ∀ value, state = .after value → frames ≠ []

theorem goesOn_key {done : List (List StringUnit × Document)} : GoesOn (.key done) frames := by
  rintro _ ⟨⟩

theorem goesOn_keyOrClose : GoesOn .keyOrClose frames := by
  rintro _ ⟨⟩

theorem goesOn_colon {done : List (List StringUnit × Document)} {key : List StringUnit} :
    GoesOn (.colon done key) frames := by
  rintro _ ⟨⟩

/-- Reading comes from one point to another, whatever room is left there. -/
def Leads (state : State) (frames : List Frame) (cs : List Char) (state' : State) (frames' : List Frame)
    (cs' : List Char) : Prop :=
  ∃ tokens, tokens + cs'.length ≤ cs.length ∧
    ∀ room, read? (room + tokens) state frames cs = read? room state' frames' cs'

theorem Leads.refl (state : State) (frames : List Frame) (cs : List Char) : Leads state frames cs state frames cs :=
  ⟨0, by omega, fun _ => rfl⟩

theorem Leads.trans (h : Leads state frames cs state' frames' cs')
    (h' : Leads state' frames' cs' state'' frames'' cs'') :
    Leads state frames cs state'' frames'' cs'' := by
  obtain ⟨n, hn, hread⟩ := h
  obtain ⟨m, hm, hread'⟩ := h'
  refine ⟨m + n, by omega, fun room => ?_⟩
  rw [← Nat.add_assoc, hread, hread']

theorem read?_succ (room : Nat) (hopen : GoesOn state frames) : read? (room + 1) state frames cs =
    match first? cs with
    | none => none
    | some (token, rest) =>
      match next? state frames token with
      | none => none
      | some (state, frames) => read? room state frames rest := by
  cases state with
  | after value =>
    cases frames with
    | nil => exact absurd rfl (hopen value rfl)
    | cons => rfl
  | _ => rfl

theorem read?_zero (hopen : GoesOn state frames) : read? 0 state frames cs = none := by
  rw [read?]
  exact hopen

theorem leads_token {token : Token} (hopen : GoesOn state frames) (hfirst : first? cs = some (token, rest))
    (hlength : rest.length < cs.length) (hnext : next? state frames token = some (state', frames')) :
    Leads state frames cs state' frames' rest := by
  refine ⟨1, by omega, fun room => ?_⟩
  rw [read?_succ room hopen, hfirst]
  simp only [hnext]

theorem first?_append_blanks {blanks : List Char} (hblanks : ∀ c ∈ blanks, Token.isBlank c) (cs : List Char) :
    first? (blanks ++ cs) = first? cs := by
  rw [first?, first?, List.dropWhile_append_of_pos hblanks]

theorem leads_blanks {blanks : List Char} (hblanks : ∀ c ∈ blanks, Token.isBlank c) (hopen : GoesOn state frames)
    (h : Leads state frames cs state' frames' cs') : Leads state frames (blanks ++ cs) state' frames' cs' := by
  obtain ⟨n, hn, hread⟩ := h
  refine ⟨n, by rw [List.length_append]; omega, fun room => ?_⟩
  rw [← hread]
  cases room + n with
  | zero => rw [read?_zero hopen, read?_zero hopen]
  | succ room => rw [read?_succ room hopen, read?_succ room hopen, first?_append_blanks hblanks]

theorem isBlank_of_mem_newLine {level : Nat} (c : Char) (hc : c ∈ newLine level) : Token.isBlank c := by
  simp only [newLine, List.mem_cons, List.mem_replicate] at hc
  rcases hc with rfl | ⟨-, rfl⟩ <;> rfl

/-- A value may come next. -/
def Awaits (state : State) : Prop := state = .value ∨ state = .valueOrClose

theorem Awaits.goesOn (h : Awaits state) : GoesOn state frames := by
  rintro value rfl
  rcases h with h | h <;> cases h

theorem Awaits.next? {token : Token} {opened : List Frame} (h : Awaits state)
    (hstart : start? token = some (state', opened)) : next? state frames token = some (state', opened ++ frames) := by
  rcases h with rfl | rfl
  · rw [Document.next?, hstart]
    rfl
  · rw [Document.next?, hstart]
    · rfl
    · rintro frames' - rfl
      cases hstart

/-! ## Written values -/

/-- A value that is one token. -/
theorem leads_scalar {token : Token} {value : Document} (h : Awaits state)
    (hfirst : first? cs = some (token, rest)) (hlength : rest.length < cs.length)
    (hstart : start? token = some (.after value, [])) : Leads state frames cs (.after value) frames rest :=
  leads_token h.goesOn hfirst hlength (h.next? hstart)

/-- A token of one character. -/
theorem leads_mark {token : Token} {c : Char} (hopen : GoesOn state frames)
    (hfirst : first? (c :: cs) = some (token, cs)) (hnext : next? state frames token = some (state', frames')) :
    Leads state frames (c :: cs) state' frames' cs :=
  leads_token hopen hfirst (by simp) hnext

theorem goesOn_after {value : Document} {frame : Frame} : GoesOn (.after value) (frame :: frames) :=
  fun _ _ => by simp

theorem endsNumber_cons {c : Char} (h : c = ',' ∨ c = '\n') : EndsNumber (c :: cs) := by
  rintro _ ⟨⟩
  rcases h with rfl | rfl <;> decide

theorem endsNumber_indentedItems (level : Nat) (items : List Json) :
    EndsNumber (indentedItems level items ++ rest) := by
  cases items with
  | nil => exact endsNumber_cons (.inr rfl)
  | cons j items => exact endsNumber_cons (.inl rfl)

theorem endsNumber_indentedFields (level : Nat) (fields : List (String × Json)) :
    EndsNumber (indentedFields level fields ++ rest) := by
  cases fields with
  | nil => exact endsNumber_cons (.inr rfl)
  | cons field fields => exact endsNumber_cons (.inl rfl)

theorem length_toString_pos (n : Int) : 0 < (toString n).toList.length := by
  obtain ⟨c, cs, hcs, -⟩ := exists_toDigits_eq_cons n.natAbs
  rw [toList_toString, hcs]
  split <;> simp

theorem length_lt_writeString (s : String) : rest.length < (writeString s ++ rest).length := by
  simp only [writeString, List.length_append, List.length_cons]
  omega

/-- A key and the colon behind it. -/
theorem leads_key {done : List (List StringUnit × Document)} (key : String) (hopen : GoesOn state frames)
    (hnext : next? state frames (.string (unitsOf key)) = some (.colon done (unitsOf key), frames)) :
    Leads state frames (writeString key ++ ':' :: ' ' :: cs) .value (.object done (unitsOf key) :: frames) cs := by
  refine (leads_token hopen (first?_writeString key) (length_lt_writeString key) hnext).trans ?_
  refine (leads_mark goesOn_colon rfl rfl).trans ?_
  have hspace : ∀ c ∈ [' '], Token.isBlank c := by
    intro c hc
    obtain rfl := List.mem_singleton.1 hc
    rfl
  exact leads_blanks hspace (Awaits.goesOn (.inl rfl)) (.refl _ _ _)

mutual
/-- **A written value is read as its document**, inside whatever arrays and objects are open. -/
theorem leads_indented : ∀ (j : Json) (level : Nat) (state : State) (frames : List Frame) (rest : List Char),
    j.Whole → Awaits state → EndsNumber rest →
    Leads state frames (j.indented level ++ rest) (.after j.document) frames rest
  | .null, level, state, frames, rest, _, h, _ => leads_scalar h rfl (by simp [indented]; omega) rfl
  | .bool true, level, state, frames, rest, _, h, _ => leads_scalar h rfl (by simp [indented]; omega) rfl
  | .bool false, level, state, frames, rest, _, h, _ => leads_scalar h rfl (by simp [indented]; omega) rfl
  | .int n, level, state, frames, rest, _, h, hrest => by
    refine leads_scalar h (first?_toString n hrest) ?_ rfl
    rw [indented, List.length_append]
    have := length_toString_pos n
    omega
  | .float _, _, _, _, _, hw, _, _ => hw.elim
  | .string s, level, state, frames, rest, _, h, _ =>
    leads_scalar h (first?_writeString s) (length_lt_writeString s) rfl
  | .array [], level, state, frames, rest, _, h, _ => by
    refine (leads_mark h.goesOn rfl (h.next? rfl)).trans ?_
    exact leads_mark (fun _ => by simp) rfl rfl
  | .array (j :: items), level, state, frames, rest, hw, h, _ => by
    have hitem := leads_indented j (level + 1) .valueOrClose (.array [] :: frames) (indentedItems level items ++ rest)
      hw.1 (.inr rfl) (endsNumber_indentedItems level items)
    have hitems := leads_indentedItems items level j.document [] frames rest hw.2
    simp only [indented, List.cons_append, List.append_assoc]
    refine (leads_mark h.goesOn rfl (h.next? rfl)).trans ?_
    exact leads_blanks isBlank_of_mem_newLine (Awaits.goesOn (.inr rfl)) (hitem.trans hitems)
  | .object [], level, state, frames, rest, _, h, _ => by
    refine (leads_mark h.goesOn rfl (h.next? rfl)).trans ?_
    exact leads_mark (fun _ => by simp) rfl rfl
  | .object ((key, j) :: fields), level, state, frames, rest, hw, h, _ => by
    have hvalue := leads_indented j (level + 1) .value (.object [] (unitsOf key) :: frames)
      (indentedFields level fields ++ rest) hw.1 (.inl rfl) (endsNumber_indentedFields level fields)
    have hfields := leads_indentedFields fields level (unitsOf key) j.document [] frames rest hw.2
    simp only [indented, List.cons_append, List.append_assoc]
    refine (leads_mark h.goesOn rfl (h.next? rfl)).trans ?_
    refine leads_blanks isBlank_of_mem_newLine goesOn_keyOrClose ?_
    exact (leads_key key goesOn_keyOrClose rfl).trans (hvalue.trans hfields)

theorem leads_indentedItems : ∀ (items : List Json) (level : Nat) (value : Document) (done : List Document)
    (frames : List Frame) (rest : List Char), WholeItems items →
    Leads (.after value) (.array done :: frames) (indentedItems level items ++ rest)
      (.after (.array (done.reverse ++ value :: documentItems items))) frames rest
  | [], level, value, done, frames, rest, _ => by
    rw [indentedItems, List.append_assoc]
    refine leads_blanks isBlank_of_mem_newLine goesOn_after (leads_mark goesOn_after rfl ?_)
    simp [Document.next?, documentItems]
  | j :: items, level, value, done, frames, rest, hw => by
    have hitem := leads_indented j (level + 1) .value (.array (value :: done) :: frames)
      (indentedItems level items ++ rest) hw.1 (.inl rfl) (endsNumber_indentedItems level items)
    have hitems := leads_indentedItems items level j.document (value :: done) frames rest hw.2
    rw [List.reverse_cons, List.append_assoc] at hitems
    simp only [indentedItems, List.cons_append, List.append_assoc]
    refine (leads_mark goesOn_after rfl rfl).trans ?_
    exact leads_blanks isBlank_of_mem_newLine (Awaits.goesOn (.inl rfl)) (hitem.trans hitems)

theorem leads_indentedFields : ∀ (fields : List (String × Json)) (level : Nat) (key : List StringUnit)
    (value : Document) (done : List (List StringUnit × Document)) (frames : List Frame) (rest : List Char),
    WholeFields fields →
    Leads (.after value) (.object done key :: frames) (indentedFields level fields ++ rest)
      (.after (.object (done.reverse ++ (key, value) :: documentFields fields))) frames rest
  | [], level, key, value, done, frames, rest, _ => by
    rw [indentedFields, List.append_assoc]
    refine leads_blanks isBlank_of_mem_newLine goesOn_after (leads_mark goesOn_after rfl ?_)
    simp [Document.next?, documentFields]
  | (key', j) :: fields, level, key, value, done, frames, rest, hw => by
    have hvalue := leads_indented j (level + 1) .value (.object ((key, value) :: done) (unitsOf key') :: frames)
      (indentedFields level fields ++ rest) hw.1 (.inl rfl) (endsNumber_indentedFields level fields)
    have hfields := leads_indentedFields fields level (unitsOf key') j.document ((key, value) :: done) frames rest hw.2
    rw [List.reverse_cons, List.append_assoc] at hfields
    simp only [indentedFields, List.cons_append, List.append_assoc]
    refine (leads_mark goesOn_after rfl rfl).trans ?_
    refine leads_blanks isBlank_of_mem_newLine goesOn_key ?_
    exact (leads_key key' goesOn_key rfl).trans (hvalue.trans hfields)
end

/-- The document that a written value is, with a line end behind it. -/
theorem ofText?_pretty_chars (j : Json) (hj : j.Whole) : ofText? (j.pretty ++ ['\n']) = some j.document := by
  obtain ⟨tokens, hlength, hread⟩ := leads_indented j 0 .value [] ['\n'] hj (.inl rfl) (endsNumber_cons (.inr rfl))
  have hroom := hread ((j.indented 0 ++ ['\n']).length - tokens)
  rw [Nat.sub_add_cancel (by omega)] at hroom
  have hfront : front? (j.pretty ++ ['\n']) = some (j.document, ['\n']) := by
    rw [front?, pretty, hroom]
    cases (j.indented 0 ++ ['\n']).length - tokens <;> rfl
  rw [ofText?, hfront]
  rfl

end Document

/-- **What is written over several lines is read back**, as far as the reader goes. -/
theorem ofText?_pretty (j : Json) (hj : j.Whole) :
    ofText? (String.ofList j.pretty ++ "\n") = if j.levels ≤ maxDepth then some j.sorted else none := by
  have hchars : (String.ofList j.pretty ++ "\n").toList = j.pretty ++ ['\n'] := by
    rw [String.toList_append, String.toList_ofList]
    rfl
  rw [ofText?, Json.read?, hchars, Document.ofText?_pretty_chars j hj]
  simp only [Option.bind_some, toJson?_document j maxDepth hj]
  by_cases h : j.levels ≤ maxDepth <;> simp [h]

end PropertyExpr.Json
