import PropertyExpr.Yaml.Token
/-!
# YAML nodes

`Node.ofText?` reads the one document of a text; a text may also have none. Nodes name the anchors they define
and refer to, and tags are written out in full.

Reading is bounded by `room`: between two tokens that are taken, fewer than four calls are made.
-/
namespace PropertyExpr.Yaml

/-- The anchor and the tag of a node. -/
structure Properties where
  anchor : Option String
  tag : Option Tag
deriving DecidableEq, Repr

def Properties.none : Properties := ⟨.none, .none⟩

inductive Node where
  | aliasOf (name : String)
  /-- A scalar, and whether it is written plain. -/
  | scalar (properties : Properties) (text : String) (plain : Bool)
  | sequence (properties : Properties) (items : List Node)
  | mapping (properties : Properties) (entries : List (Node × Node))
deriving Inhabited

namespace Node

/-- What stands for a node that is left out. -/
def empty : Node := scalar .none "" true

/-- The prefixes that tag handles stand for. -/
abbrev Handles := List (String × Tag)

def defaultHandles : Handles := [("!", .ofString "!"), ("!!", .corePrefix)]

/-- A tag in full. -/
def fullTag? (handles : Handles) (handle : String) (suffix : Tag) : Option Tag :=
  if handle = "" then some suffix else (handles.lookup handle).map (· ++ suffix)

/-- The anchor and the tag in front of a node, in either order, and what follows them. -/
def properties? (handles : Handles) : List Token → Option (Properties × List Token)
  | .anchor name :: .tag handle suffix :: ts | .tag handle suffix :: .anchor name :: ts =>
    (fullTag? handles handle suffix).map fun tag => (⟨some name, some tag⟩, ts)
  | .anchor name :: ts => some (⟨some name, none⟩, ts)
  | .tag handle suffix :: ts => (fullTag? handles handle suffix).map fun tag => (⟨none, some tag⟩, ts)
  | ts => some (.none, ts)

def startsWith (ts : List Token) (kinds : List Token) : Bool := ts.head?.any kinds.contains

mutual

/-- A node. Block collections are read if `block` says so, and a sequence without indentation of its own if
`indentless` does. -/
def read? (handles : Handles) (block indentless : Bool) : (room : Nat) → List Token → Option (Node × List Token)
  | 0, _ => none
  | _ + 1, .aliasOf name :: ts => some (.aliasOf name, ts)
  | room + 1, ts =>
    match properties? handles ts with
    | none => none
    | some (properties, ts) =>
      match ts with
      | .scalar text plain :: ts => some (scalar properties text plain, ts)
      | .flowSequenceStart :: ts =>
        (flowItems? handles true room ts).map fun (items, ts) => (sequence properties items, ts)
      | .flowMappingStart :: ts =>
        (flowEntries? handles true room ts).map fun (entries, ts) => (mapping properties entries, ts)
      | .blockEntry :: ts' =>
        if indentless then
          (indentlessItems? handles room (.blockEntry :: ts')).map fun (items, ts) =>
            (sequence properties items, ts)
        else unwritten? properties ts
      | .blockSequenceStart :: ts' =>
        if block then (blockItems? handles room ts').map fun (items, ts) => (sequence properties items, ts)
        else unwritten? properties ts
      | .blockMappingStart :: ts' =>
        if block then (blockEntries? handles room ts').map fun (entries, ts) => (mapping properties entries, ts)
        else unwritten? properties ts
      | ts => unwritten? properties ts

/-- A node of which only properties are written. -/
def unwritten? (properties : Properties) (ts : List Token) : Option (Node × List Token) :=
  if properties = .none then none else some (scalar properties "" true, ts)

/-- A node, or the empty one before any of `ends`. -/
def optional? (handles : Handles) (block indentless : Bool) (ends : List Token) :
    (room : Nat) → List Token → Option (Node × List Token)
  | 0, _ => none
  | room + 1, ts => if startsWith ts ends then some (empty, ts) else read? handles block indentless room ts

def blockItems? (handles : Handles) : (room : Nat) → List Token → Option (List Node × List Token)
  | _ + 1, .blockEnd :: ts => some ([], ts)
  | room + 1, .blockEntry :: ts => do
    let (item, ts) ← optional? handles true false [.blockEntry, .blockEnd] room ts
    let (items, ts) ← blockItems? handles room ts
    return (item :: items, ts)
  | _, _ => none

def indentlessItems? (handles : Handles) : (room : Nat) → List Token → Option (List Node × List Token)
  | 0, _ => none
  | room + 1, .blockEntry :: ts => do
    let (item, ts) ← optional? handles true false [.blockEntry, .key, .value, .blockEnd] room ts
    let (items, ts) ← indentlessItems? handles room ts
    return (item :: items, ts)
  | _ + 1, ts => some ([], ts)

def blockEntries? (handles : Handles) : (room : Nat) → List Token → Option (List (Node × Node) × List Token)
  | _ + 1, .blockEnd :: ts => some ([], ts)
  | room + 1, .key :: ts => do
    let (key, ts) ← optional? handles true true [.key, .value, .blockEnd] room ts
    let (value, ts) ←
      match ts with
      | .value :: ts => optional? handles true true [.key, .value, .blockEnd] room ts
      | ts => some (empty, ts)
    let (entries, ts) ← blockEntries? handles room ts
    return ((key, value) :: entries, ts)
  | _, _ => none

/-- The items of a flow sequence, `first` saying that none has been read. An item may be a mapping with one
entry; if its key is left out, the token that says so is passed over. -/
def flowItems? (handles : Handles) (first : Bool) : (room : Nat) → List Token → Option (List Node × List Token)
  | 0, _ => none
  | _ + 1, .flowSequenceEnd :: ts => some ([], ts)
  | room + 1, ts =>
    let ts? := if first then some ts else match ts with
      | .flowEntry :: ts => some ts
      | _ => none
    match ts? with
    | none => none
    | some (.flowSequenceEnd :: ts) => some ([], ts)
    | some (.key :: ts) => do
      let (key, ts) ←
        if startsWith ts [.value, .flowEntry, .flowSequenceEnd] then some (empty, ts.tail)
        else read? handles false false room ts
      let (value, ts) ←
        match ts with
        | .value :: ts => optional? handles false false [.flowEntry, .flowSequenceEnd] room ts
        | ts => some (empty, ts)
      let (items, ts) ← flowItems? handles false room ts
      return (mapping .none [(key, value)] :: items, ts)
    | some ts => do
      let (item, ts) ← read? handles false false room ts
      let (items, ts) ← flowItems? handles false room ts
      return (item :: items, ts)

/-- The entries of a flow mapping, `first` saying that none has been read. A node without a key token is a key
without a value. -/
def flowEntries? (handles : Handles) (first : Bool) :
    (room : Nat) → List Token → Option (List (Node × Node) × List Token)
  | 0, _ => none
  | _ + 1, .flowMappingEnd :: ts => some ([], ts)
  | room + 1, ts =>
    let ts? := if first then some ts else match ts with
      | .flowEntry :: ts => some ts
      | _ => none
    match ts? with
    | none => none
    | some (.flowMappingEnd :: ts) => some ([], ts)
    | some (.key :: ts) => do
      let (key, ts) ← optional? handles false false [.value, .flowEntry, .flowMappingEnd] room ts
      let (value, ts) ←
        match ts with
        | .value :: ts => optional? handles false false [.flowEntry, .flowMappingEnd] room ts
        | ts => some (empty, ts)
      let (entries, ts) ← flowEntries? handles false room ts
      return ((key, value) :: entries, ts)
    | some ts => do
      let (key, ts) ← read? handles false false room ts
      let (entries, ts) ← flowEntries? handles false room ts
      return ((key, empty) :: entries, ts)

end

/-! ## Documents -/

/-- The handles that directives define, each once, up to the start of the document. A text may state its
version once, which must be 1.1 or 1.2. -/
def directives? (versioned : Bool) (handles : Handles) : List Token → Option (Handles × List Token)
  | .versionDirective major minor :: ts =>
    if versioned || major ≠ 1 || (minor ≠ 1 && minor ≠ 2) then none else directives? true handles ts
  | .tagDirective handle pre :: ts =>
    if (handles.lookup handle).isSome then none else directives? versioned ((handle, pre) :: handles) ts
  | .documentStart :: ts => some (handles, ts)
  | _ => none

/-- Whether a document that has been started explicitly is empty. -/
def isEmptyDocument : List Token → Bool
  | .versionDirective .. :: _ | .tagDirective .. :: _ | .documentStart :: _ | .documentEnd :: _
  | .streamEnd :: _ => true
  | _ => false

/-- The root of the one document, if there is one. -/
def ofTokens? (ts : List Token) : Option (Option Node) := do
  let room := 4 * ts.length + 4
  let (root, ts) ←
    match ts with
    | .streamEnd :: ts => some (none, .streamEnd :: ts)
    | .versionDirective .. :: _ | .tagDirective .. :: _ | .documentStart :: _ => do
      let (handles, ts) ← directives? false [] ts
      if isEmptyDocument ts then some (some empty, ts)
      else (read? (handles ++ defaultHandles) true false room ts).map fun (root, ts) => (some root, ts)
    | ts => (read? defaultHandles true false room ts).map fun (root, ts) => (some root, ts)
  if ts.dropWhile (· = .documentEnd) = [.streamEnd] then return root else none

/-- The root of the one document of a text, if there is one. -/
def ofText? (cs : List Char) : Option (Option Node) := (Token.ofText? cs).bind ofTokens?

end Node

end PropertyExpr.Yaml
