import PropertyExpr.Yaml.Node
/-!
# YAML trees with their aliases resolved

An anchor gets the number of names that have been used for anchors before it, and an alias stands for the node
whose anchor has its number, the last if there are several. Numbers differ as long as no name is used twice.
-/
namespace PropertyExpr.Yaml

inductive Tree where
  | aliasOf (number : Nat)
  | scalar (tag : Option Tag) (text : String) (plain : Bool)
  | sequence (tag : Option Tag) (items : List Tree)
  | mapping (tag : Option Tag) (entries : List (Tree × Tree))
deriving Inhabited

/-- The numbers of anchors by name. -/
abbrev Anchors := List (String × Nat)

/-- Numbers an anchor, if there is one. -/
def Anchors.define (anchors : Anchors) : Option String → Anchors × Option Nat
  | none => (anchors, none)
  | some name => ((name, anchors.length) :: anchors.filter (·.1 ≠ name), some anchors.length)

/-- The nodes with an anchor and their numbers, in the order in which they start. -/
abbrev Targets := List (Nat × Tree)

def Targets.get? (targets : Targets) (number : Nat) : Option Tree := targets.reverse.lookup number

namespace Tree

/-- A node that starts with the given number, before those inside it. -/
def target (number : Option Nat) (tree : Tree) (inside : Targets) : Targets :=
  (number.map (·, tree)).toList ++ inside

mutual
/-- The tree of a node, the anchors defined by its end, and the targets inside it. An alias must come after its
anchor has been named. -/
def ofNode? (anchors : Anchors) : Node → Option (Tree × Anchors × Targets)
  | .aliasOf name => (anchors.lookup name).map fun number => (aliasOf number, anchors, [])
  | .scalar properties text plain =>
    let (anchors, number) := anchors.define properties.anchor
    let tree := scalar properties.tag text plain
    some (tree, anchors, target number tree [])
  | .sequence properties items =>
    let (anchors, number) := anchors.define properties.anchor
    match ofItems? anchors items with
    | none => none
    | some (items, anchors, inside) =>
      let tree := sequence properties.tag items
      some (tree, anchors, target number tree inside)
  | .mapping properties entries =>
    let (anchors, number) := anchors.define properties.anchor
    match ofEntries? anchors entries with
    | none => none
    | some (entries, anchors, inside) =>
      let tree := mapping properties.tag entries
      some (tree, anchors, target number tree inside)
def ofItems? (anchors : Anchors) : List Node → Option (List Tree × Anchors × Targets)
  | [] => some ([], anchors, [])
  | n :: ns =>
    match ofNode? anchors n with
    | none => none
    | some (t, anchors, first) =>
      match ofItems? anchors ns with
      | none => none
      | some (ts, anchors, others) => some (t :: ts, anchors, first ++ others)
def ofEntries? (anchors : Anchors) : List (Node × Node) → Option (List (Tree × Tree) × Anchors × Targets)
  | [] => some ([], anchors, [])
  | (k, v) :: ns =>
    match ofNode? anchors k with
    | none => none
    | some (k, anchors, first) =>
      match ofNode? anchors v with
      | none => none
      | some (v, anchors, second) =>
        match ofEntries? anchors ns with
        | none => none
        | some (ts, anchors, others) => some ((k, v) :: ts, anchors, first ++ second ++ others)
end

mutual
/-- The number of events of a tree: one for a scalar or an alias, two around a collection. -/
def events : Tree → Nat
  | aliasOf _ | scalar .. => 1
  | sequence _ items => 2 + eventsOfItems items
  | mapping _ entries => 2 + eventsOfEntries entries
def eventsOfItems : List Tree → Nat
  | [] => 0
  | t :: ts => t.events + eventsOfItems ts
def eventsOfEntries : List (Tree × Tree) → Nat
  | [] => 0
  | (k, v) :: ts => k.events + v.events + eventsOfEntries ts
end

end Tree

end PropertyExpr.Yaml
