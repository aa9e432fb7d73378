import PropertyExpr.Environment.Table
import PropertyExpr.Yaml.Resolution
import PropertyExpr.Yaml.Tree
/-!
# Environment files in YAML: `serde_yaml::from_str`

A file (`EnvironmentFile`) is a mapping whose key `queries` holds the table; other keys are passed over. Where a
mapping or a sequence is called for, nothing at all counts as an empty one. Aliases are followed where they are
met, no more than a hundred times for each event of the document; together with a bound on nesting (`room`), this
ends reading also when a node holds an alias to itself.
-/
namespace PropertyExpr.Environment.YamlFile

open Yaml

/-- How many collections may be open at a time. -/
def maxDepth : Nat := 128

/-- A document whose aliases are to be followed. -/
structure Document where
  targets : Targets
  /-- How many aliases may be followed. -/
  follows : Nat

/-- Reading counts the aliases followed so far. -/
abbrev Reading := StateT Nat Option

variable (document : Document)

/-- The node that a node is or stands for. -/
def follow : Tree → Reading Tree
  | .aliasOf number => do
    let followed ← get
    if followed < document.follows then
      set (followed + 1)
      document.targets.get? number
    else failure
  | tree => return tree

/-- The text of a scalar. -/
def key (tree : Tree) : Reading String := do
  match ← follow document tree with
  | .scalar _ text _ => return text
  | _ => failure

/-- The entries of a mapping. -/
def entries (tree : Tree) : Reading (List (Tree × Tree)) := do
  match ← follow document tree with
  | .mapping _ entries => return entries
  | .scalar _ "" true => return []
  | _ => failure

/-- The items of a sequence. -/
def items (tree : Tree) : Reading (List Tree) := do
  match ← follow document tree with
  | .sequence _ items => return items
  | .scalar _ "" true => return []
  | _ => failure

/-- The value that a node stands for, with no more than `room` collections inside each other. It has no type of
its own. -/
def value (room : Nat) (tree : Tree) : Reading Json := do
  match ← follow document tree with
  | .aliasOf _ => failure
  | .scalar tag text plain => scalarValue? tag text plain
  | .sequence tag items =>
    match room with
    | 0 => failure
    | room + 1 =>
      if tag.any Tag.isOwn then failure
      return .array (← items.mapM (value room))
  | .mapping tag entries =>
    match room with
    | 0 => failure
    | room + 1 =>
      if tag.any Tag.isOwn then failure
      return .object (← entries.mapM fun (k, v) => return (← key document k, ← value room v))

/-- A row, inside the mapping of the file, that of the sources and the sequence of the rows. -/
def row (tree : Tree) : Reading Row := do
  let fields ← (← entries document tree).mapM fun (k, v) =>
    return (← key document k, Value.ofJson (← value document (maxDepth - 4) v))
  return .ofList fields

/-- A table. -/
def table (tree : Tree) : Reading Table := do
  let sources ← (← entries document tree).mapM fun (k, v) =>
    return (← key document k, ← (← items document v).mapM (row document))
  return ⟨.ofList sources⟩

/-- The table of the entries of a file, `found` being that of those before. -/
def ofEntries (found : Option Table) : List (Tree × Tree) → Reading (Option Table)
  | [] => return found
  | (k, v) :: rest => do
    if (← key document k) = "queries" then
      if found.isSome then failure
      ofEntries (some (← table document v)) rest
    else ofEntries found rest

/-- The table of the document that `root` is the root of. -/
def ofTree? (root : Tree) (targets : Targets) : Option Table :=
  let document : Document := ⟨targets, 100 * root.events⟩
  let reading : Reading Table := do
    return (← ofEntries document none (← entries document root)).getD .empty
  reading.run' 0

/-- The table of a file with the given content. -/
def read? (content : String) : Option Table :=
  match Node.ofText? content.toList with
  | none => none
  | some none => some .empty
  | some (some node) =>
    match Tree.ofNode? [] node with
    | none => none
    | some (root, _, targets) => ofTree? root targets

end PropertyExpr.Environment.YamlFile
