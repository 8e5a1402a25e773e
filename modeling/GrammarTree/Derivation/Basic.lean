import GrammarTree.Error

/-!
# Derivations

A derivation is a forest of labelled nodes. Nodes are numbered from 0 in the order of their
creation, and the number of a deleted node is not used again.

The nodes are one list in ascending order of their numbers, and each has the number of its parent.
Children are not stored and are found by looking for the nodes with a parent. So there is only one
place where a link is written down, and no second one that could disagree with it. What the type
does not say is that the parents are nodes and that no way up goes round in a circle; this is an
invariant of the edits, and is proved in `Proofs.Derivation.Forest`.

The functions are total on all derivations all the same. The way up takes each node out of the nodes
that are left as it passes it, and a deletion takes each node out of the derivation; both end
because there is less left after each step.

What is here:

* `Node` and `Derivation`, with the queries by node number;
* `Derivation.lineage`, a node with its ancestors;
* `Derivation.sweep`, which removes nodes together with everything below them;
* the edits `newNode`, `link`, `unlink` and `delete`. An edit that fails leaves the derivation as
  far as it had come.
-/

set_option autoImplicit false

namespace GrammarTree

/-- A step that may change a state of type `σ`, and that returns a value or fails. A failure keeps
the changes made before it. -/
abbrev Edit (σ : Type) := EStateM Error σ

/-! ## Nodes -/

/-- A node of a derivation, with the number of its parent if it hangs from one. -/
structure Node where
  /-- The number of the node. -/
  id : NodeId
  /-- A terminal or a non-terminal. -/
  label : Text
  /-- The node it hangs from. -/
  parent : Option NodeId
  deriving DecidableEq, Repr

namespace Node

/-- Whether the label of a node is a non-terminal placeholder. -/
def isPlaceholder (n : Node) : Bool := GrammarTree.isPlaceholder n.label

/-- The node without its parent if that parent is `id`, and unchanged otherwise. -/
def detachFrom (id : NodeId) (n : Node) : Node :=
  if n.parent = some id then { n with parent := none } else n

end Node

/-! ## Derivations -/

/-- Nodes with their labels and parents. -/
structure Derivation where
  /-- The nodes, by ascending number. -/
  nodes : List Node
  /-- The number of the next new node. -/
  next : Nat
  deriving DecidableEq, Repr

namespace Derivation

/-- The derivation without nodes. -/
def empty : Derivation := ⟨[], 0⟩

/-! ## Queries -/

/-- The node with a number. -/
def find? (g : Derivation) (id : NodeId) : Option Node := g.nodes.find? fun n => n.id = id

/-- Whether there is a node with a number. -/
def contains (g : Derivation) (id : NodeId) : Bool := (g.find? id).isSome

/-- The numbers of the nodes, in ascending order. -/
def ids (g : Derivation) : List NodeId := g.nodes.map Node.id

/-- The label of a node. -/
def label? (g : Derivation) (id : NodeId) : Option Text := (g.find? id).map Node.label

/-- The parent of a node. -/
def parent? (g : Derivation) (id : NodeId) : Option NodeId := (g.find? id).bind Node.parent

/-- The children of a node, in ascending order. -/
def children (g : Derivation) (id : NodeId) : List NodeId :=
  (g.nodes.filter fun n => n.parent = some id).map Node.id

/-- The pairs of a parent and its child, by ascending child. -/
def links (g : Derivation) : List (NodeId × NodeId) :=
  g.nodes.filterMap fun n => n.parent.map fun p => (p, n.id)

/-- Whether a number belongs to a node with a non-terminal placeholder as its label. -/
def isPlaceholder (g : Derivation) (id : NodeId) : Bool :=
  match g.find? id with
  | some n => n.isPlaceholder
  | none => false

/-- Whether a node is a placeholder that has no children yet. -/
def isIncomplete (g : Derivation) (n : Node) : Bool :=
  n.isPlaceholder && !(g.nodes.any fun m => m.parent = some n.id)

/-- The placeholders without children, in ascending order. -/
def incomplete (g : Derivation) : List NodeId := (g.nodes.filter g.isIncomplete).map Node.id

/-- The numbers of placeholders among the given ones. -/
def placeholders (g : Derivation) (ids : List NodeId) : List NodeId := ids.filter g.isPlaceholder

/-! ## Ancestors

The computation stops at a number that belongs to no node, which then ends the lineage. A node that
is met for the second time is such a number. -/

/-- Some nodes without the one that has a number. -/
def nodesWithout (id : NodeId) (nodes : List Node) : List Node := nodes.filter fun n => n.id ≠ id

theorem length_nodesWithout_lt {nodes : List Node} {n : Node} {id : NodeId}
    (h : nodes.find? (fun m => m.id = id) = some n) :
    (nodesWithout id nodes).length < nodes.length := by
  have hid : n.id = id := by simpa using List.find?_some h
  exact List.length_filter_lt_length_iff_exists.2 ⟨n, List.mem_of_find?_eq_some h, by simp [hid]⟩

/-- A number followed by its ancestors among some nodes, each looked up once. -/
def lineageAmong (nodes : List Node) (id : NodeId) : List NodeId :=
  match _h : nodes.find? fun n => n.id = id with
  | none => [id]
  | some n =>
    match n.parent with
    | none => [id]
    | some parent => id :: lineageAmong (nodesWithout id nodes) parent
termination_by nodes.length
decreasing_by exact length_nodesWithout_lt _h

/-- A node followed by its ancestors, from its parent up to its root. -/
def lineage (g : Derivation) (id : NodeId) : List NodeId := lineageAmong g.nodes id

/-! ## Changes

A derivation changes in three ways only: it gets a node, a node gets another parent, or a node is
taken out. The measure of a sweep is the number of links that are left, together with the number of
pending nodes: a removed node is one pending node less, and each child that becomes pending has lost
its link. -/

/-- The derivation with one more node, which has the next number and no parent. -/
def grow (g : Derivation) (label : Text) : Derivation :=
  ⟨g.nodes ++ [⟨g.next, label, none⟩], g.next + 1⟩

/-- The derivation with another parent for one node. -/
def setParent (g : Derivation) (id : NodeId) (parent : Option NodeId) : Derivation :=
  { g with nodes := g.nodes.map fun n => if n.id = id then { n with parent := parent } else n }

/-- The derivation without one node. Its children lose their parent. -/
def remove (g : Derivation) (id : NodeId) : Derivation :=
  { g with nodes := (nodesWithout id g.nodes).map (Node.detachFrom id) }

/-- The number of nodes that have a parent. -/
def linkCount (g : Derivation) : Nat := g.nodes.countP fun n => n.parent.isSome

theorem length_filter_add_countP_detach_le (id : NodeId) (nodes : List Node) :
    (nodes.filter fun n => n.parent = some id).length +
        ((nodesWithout id nodes).map (Node.detachFrom id)).countP (fun n => n.parent.isSome) ≤
      nodes.countP fun n => n.parent.isSome := by
  induction nodes with
  | nil => simp [nodesWithout]
  | cons n nodes ih =>
    have htail : nodesWithout id (n :: nodes) =
        if n.id = id then nodesWithout id nodes else n :: nodesWithout id nodes := by
      simp only [nodesWithout, List.filter_cons]
      by_cases hid : n.id = id <;> simp [hid]
    rw [htail, List.filter_cons, List.countP_cons]
    by_cases hparent : n.parent = some id
    · by_cases hid : n.id = id
      · simp only [hparent, hid, decide_true, if_true, List.length_cons, Option.isSome_some]
        omega
      · simp only [hparent, hid, decide_true, if_true, if_false, List.map_cons, List.countP_cons,
          Node.detachFrom, List.length_cons, Option.isSome_some, Option.isSome_none]
        simp only [Bool.false_eq_true, if_false]
        omega
    · by_cases hid : n.id = id
      · simp only [hparent, hid, decide_false, if_true, Bool.false_eq_true, if_false]
        omega
      · simp only [hparent, hid, decide_false, if_false, Bool.false_eq_true, List.map_cons,
          List.countP_cons, Node.detachFrom]
        omega

/-- Removing a node removes at least the links to its children. -/
theorem children_add_linkCount_remove_le (g : Derivation) (id : NodeId) :
    (g.children id).length + (g.remove id).linkCount ≤ g.linkCount := by
  rw [children, List.length_map]
  exact length_filter_add_countP_detach_le id g.nodes

/-- Removes the pending nodes together with everything below them: each node that is removed puts
its children in front of the nodes that are still pending. Returns the removed numbers in order,
and what is left. -/
def sweep (g : Derivation) : List NodeId → List NodeId × Derivation
  | [] => ([], g)
  | id :: pending =>
    let swept := sweep (g.remove id) (g.children id ++ pending)
    (id :: swept.1, swept.2)
termination_by pending => g.linkCount + pending.length
decreasing_by
  have hle := children_add_linkCount_remove_le g id
  simp only [List.length_append, List.length_cons]
  omega

/-! ## Edits -/

/-- Fails unless a node exists, with the name of the operation that needs it. -/
def require (id : NodeId) (operation : Text) : Edit Derivation Unit := do
  let g ← get
  unless g.contains id do
    throw (.noSuchNode id operation)

/-- Creates a node without a parent and returns its number. -/
def newNode (label : Text) : Edit Derivation NodeId := do
  let g ← get
  set (g.grow label)
  return g.next

/-- Makes `parent` the parent of `child`, in place of any earlier parent. Fails if one of them does
not exist, or if `child` is `parent` or one of its ancestors. -/
def link (parent child : NodeId) : Edit Derivation Unit := do
  require parent "link".toList
  require child "link".toList
  let g ← get
  if child ∈ g.lineage parent then
    throw (.cyclicLink parent child)
  set (g.setParent child (some parent))

/-- Takes a node away from its parent, and returns that parent. -/
def unlink (child : NodeId) : Edit Derivation (Option NodeId) := do
  require child "unlink".toList
  let g ← get
  set (g.setParent child none)
  return g.parent? child

/-- Deletes a node with all its descendants, and returns its former parent. -/
def delete (id : NodeId) : Edit Derivation (Option NodeId) := do
  require id "delete".toList
  let g ← get
  set ((g.setParent id none).sweep [id]).2
  return g.parent? id

end Derivation

end GrammarTree
