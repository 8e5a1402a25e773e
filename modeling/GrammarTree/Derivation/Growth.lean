import GrammarTree.Derivation.Basic
import GrammarTree.Grammar.Chain

/-!
# Growth

A derivation grows downwards from an existing node, by the tokens of one alternative or by a chain
of rules that leads to a value.

A chain is found before the derivation changes, so that a search without success changes nothing.
Its intermediate non-terminals become a *spine*, one node below the other. The seed of the chain
gets no node of its own: the alternative that is spelled for it is expanded below the last node of
the spine, or below the source if the spine is empty.

The numbers that are reported are those of the new nodes, in the order of their creation. Which of
the nodes for tokens are placeholders is asked when all of them are there.

What is here:

* `Derivation.expand`, one child for each token of an alternative;
* `Derivation.chainFrom`, the chain from a node to the value that a pattern matches;
* `Derivation.growPath`, which adds that chain, and `Growth`, the nodes that it added.
-/

set_option autoImplicit false

namespace GrammarTree

/-- The nodes added by the growth of a chain. -/
structure Growth where
  /-- The node where the chain starts. -/
  source : NodeId
  /-- The chain. -/
  chain : Chain
  /-- The nodes for the intermediate non-terminals, from the top down. -/
  spine : List NodeId
  /-- The nodes for the tokens of the alternative, in written order. -/
  leaves : List NodeId
  /-- The placeholders among the nodes for the tokens. -/
  unfinished : List NodeId
  deriving DecidableEq, Repr

/-- The node that got the tokens of the alternative as its children. -/
def Growth.attach (r : Growth) : NodeId := r.spine.getLast?.getD r.source

namespace Derivation

/-- Creates a node with a parent and returns its number. -/
def newChild (parent : NodeId) (label : Text) : Edit Derivation NodeId := do
  let id ← newNode label
  link parent id
  return id

/-- Creates a child of one node for each label, in order. -/
def newChildren (parent : NodeId) : List Text → Edit Derivation (List NodeId)
  | [] => return []
  | label :: labels => do
    let id ← newChild parent label
    let ids ← newChildren parent labels
    return id :: ids

/-- Creates a node for each label, each the child of the one before it. -/
def newDescendants (parent : NodeId) : List Text → Edit Derivation (List NodeId)
  | [] => return []
  | label :: labels => do
    let id ← newChild parent label
    let ids ← newDescendants id labels
    return id :: ids

/-- Adds the tokens of an alternative below a node, and returns their numbers in written order. -/
def expand (alternative : Text) (parent : NodeId) : Edit Derivation (List NodeId) := do
  require parent "expand".toList
  newChildren parent (Alternative.tokens alternative)

/-- The chain from the label of a node to the value that a pattern matches. It must lead somewhere:
neither the pattern nor the value may be the label itself. -/
def chainFrom (g : Derivation) (i : Index) (source : NodeId) (pattern : Text) :
    Except Error Chain :=
  match g.label? source with
  | none => .error (.noSuchNode source "find a path from".toList)
  | some label =>
    if pattern = label then .error (.path (.alreadyThere source label))
    else
      match searchChain i label pattern with
      | .error fault => .error (.path fault)
      | .ok chain =>
        if chain.above = [] then .error (.path (.alreadyThere source label)) else .ok chain

/-- Adds the chain from a node to the value that a pattern matches: one node below the other for
the intermediate non-terminals, and the tokens of the alternative below the last of them. -/
def growPath (i : Index) (source : NodeId) (pattern : Text) : Edit Derivation Growth := do
  match (← get).chainFrom i source pattern with
  | .error e => throw e
  | .ok chain =>
    let spine ← newDescendants source chain.intermediates
    let leaves ← expand chain.alternative (spine.getLast?.getD source)
    let unfinished := (← get).placeholders leaves
    return { source, chain, spine, leaves, unfinished }

end Derivation

end GrammarTree
