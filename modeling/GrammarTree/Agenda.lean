import GrammarTree.Derivation.Basic

/-!
# The agenda

The agenda holds the nodes to work on next. Its front is the *current* node. The agenda may hold a
node twice, and it does not watch the derivation: nodes that are gone stay on it until it is
restricted to the nodes that exist.

The operations are those of a queue that is filled at both ends, and none of them fails. To take
away a node that is not there changes nothing, and the current node of an empty agenda is `none`.
What is known of the nodes on an agenda, and how often one can be there, depends on the session that
it belongs to.

What is here:

* `Agenda.current?`, the current node;
* `Agenda.prepend` and `Agenda.append`, which add nodes at the front and at the end;
* `Agenda.remove`, `Agenda.dropCurrent` and `Agenda.restrict`, which take nodes away;
* `Agenda.bringToFront`, which makes a node current, and `Agenda.ofIncomplete`, a new agenda.
-/

set_option autoImplicit false

namespace GrammarTree

/-- The nodes to work on next, the current one first. -/
structure Agenda where
  /-- The numbers of the nodes, front first. -/
  ids : List NodeId
  deriving DecidableEq, Repr

namespace Agenda

/-- The agenda without nodes. -/
def empty : Agenda := ⟨[]⟩

/-- The front of the agenda. -/
def current? (q : Agenda) : Option NodeId := q.ids.head?

/-- Puts nodes in front in the given order; the first of them becomes current. -/
def prepend (ids : List NodeId) (q : Agenda) : Agenda := ⟨ids ++ q.ids⟩

/-- Adds a node at the end. A missing or negative number adds nothing. -/
def append (id : Option NodeId) (q : Agenda) : Agenda :=
  match id with
  | none => q
  | some id => if id < 0 then q else ⟨q.ids ++ [id]⟩

/-- Removes the first occurrence of a node. -/
def remove (id : NodeId) (q : Agenda) : Agenda := ⟨q.ids.erase id⟩

/-- Makes a node current, whether or not it was on the agenda. -/
def bringToFront (id : NodeId) (q : Agenda) : Agenda := ⟨id :: q.ids.erase id⟩

/-- Drops the current node. -/
def dropCurrent (q : Agenda) : Agenda := ⟨q.ids.tail⟩

/-- Drops the nodes that a derivation does not hold. -/
def restrict (g : Derivation) (q : Agenda) : Agenda := ⟨q.ids.filter g.contains⟩

/-- The incomplete nodes of a derivation, in ascending order. -/
def ofIncomplete (g : Derivation) : Agenda := ⟨g.incomplete⟩

end Agenda

end GrammarTree
