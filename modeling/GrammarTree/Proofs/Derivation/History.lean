import GrammarTree.Proofs.Derivation.Advance

/-!
# Histories of a derivation

A derivation is reached from the empty one by actions, with any arguments, some of which fail. This
file proves that every derivation on the way is a forest, and that the numbers of its nodes are
handed out one after the other and never again.

The second half is not a property of a derivation but of the way that led to it: a number that was
given to a deleted node can no longer be seen. A history is therefore taken together with the list
of the numbers handed out along it. An action that fails hands out nothing, and one that succeeds
hands out the next ones, so that the whole list is the numbers from 0 to the last one in order.

What is here:

* `Derivation.Action` and `Derivation.Action.perform`, the actions and the edits that they are;
* `Derivation.Action.perform_settles`: every action is all or nothing;
* `Derivation.play` and `Derivation.issued`, a whole history and the numbers handed out in it, with
  `Derivation.advance_play`, the step carried along the history;
* `Derivation.isForest_play`, and `Derivation.Reachable` with its forest.

Later files start from a derivation that can be reached, and so from a forest, without a mention of
the actions that led there.
-/

set_option autoImplicit false

namespace GrammarTree

namespace Derivation

variable {g : Derivation}

/-! ## Actions -/

/-- One action on a derivation with its arguments. -/
inductive Action where
  /-- Creates a node without a parent. -/
  | newNode (label : Text)
  /-- Makes one node the parent of another. -/
  | link (parent child : NodeId)
  /-- Takes a node away from its parent. -/
  | unlink (child : NodeId)
  /-- Deletes a node with its descendants. -/
  | delete (id : NodeId)
  /-- Adds the tokens of an alternative below a node. -/
  | expand (alternative : Text) (parent : NodeId)
  /-- Adds the chain from a node to the value that a pattern matches. -/
  | growPath (i : Index) (source : NodeId) (pattern : Text)

namespace Action

/-- The edit of an action. It returns the numbers of the nodes that it created, in the order of
their creation. -/
def perform : Action → Edit Derivation (List NodeId)
  | newNode label => do
    let id ← Derivation.newNode label
    return [id]
  | link parent child => do
    Derivation.link parent child
    return []
  | unlink child => do
    let _ ← Derivation.unlink child
    return []
  | delete id => do
    let _ ← Derivation.delete id
    return []
  | expand alternative parent => Derivation.expand alternative parent
  | growPath i source pattern => do
    let growth ← Derivation.growPath i source pattern
    return growth.spine ++ growth.leaves

/-- **Every action is all or nothing.** -/
theorem perform_settles (hg : g.IsForest) (a : Action) :
    Settles g (fun created => created) (a.perform g) := by
  cases a with
  | newNode label => exact (newNode_settles hg label).andReturn
  | link parent child => exact (link_settles hg parent child).andReturn
  | unlink child => exact (unlink_settles hg child).andReturn
  | delete id => exact (delete_settles hg id).andReturn
  | expand alternative parent => exact expand_settles hg alternative parent
  | growPath i source pattern => exact (growPath_settles hg i source pattern).andReturn

/-- The derivation after an action, whether or not it succeeds. -/
def after (a : Action) (g : Derivation) : Derivation := Edit.finalState a.perform g

/-- The numbers that an action hands out. -/
def created (a : Action) (g : Derivation) : List NodeId :=
  match a.perform g with
  | .ok ids _ => ids
  | .error _ _ => []

/-- An action that fails hands out nothing, so that every action advances a forest. -/
theorem advance_after (hg : g.IsForest) (a : Action) : Advance g (a.created g) (a.after g) := by
  have hsettles := a.perform_settles hg
  rw [created, after, Edit.finalState]
  generalize a.perform g = result at hsettles ⊢
  cases hsettles with
  | done hadvance => exact hadvance
  | refused e => exact advance_of_next_eq hg rfl

end Action

/-! ## Histories -/

/-- The derivation after some actions. -/
def play : List Action → Derivation → Derivation
  | [], g => g
  | a :: actions, g => play actions (a.after g)

/-- The numbers handed out by some actions, in order. -/
def issued : List Action → Derivation → List NodeId
  | [], _ => []
  | a :: actions, g => a.created g ++ issued actions (a.after g)

theorem advance_play (hg : g.IsForest) (actions : List Action) :
    Advance g (issued actions g) (play actions g) := by
  induction actions generalizing g with
  | nil => exact advance_of_next_eq hg rfl
  | cons a actions ih =>
    have hfirst := a.advance_after hg
    have hrest := ih hfirst.isForest
    refine ⟨?_, ?_, hrest.isForest⟩
    · rw [issued, List.length_append, ← newIds_append _ _ hfirst.next_eq,
        ← hfirst.created_eq, ← hrest.created_eq]
    · rw [play, hrest.next_eq, hfirst.next_eq, issued, List.length_append, Nat.add_assoc]

/-- The derivations that some actions lead to. -/
def Reachable (g : Derivation) : Prop := ∃ actions, play actions empty = g

theorem Reachable.isForest (h : g.Reachable) : g.IsForest := by
  obtain ⟨actions, rfl⟩ := h
  exact (advance_play isForest_empty actions).isForest

/-- **Every history leads to a forest and uses no number twice.** The numbers handed out are those
below the next one, in order; an action that fails has handed out none of them, since it leaves
the derivation as it was. -/
theorem isForest_play (actions : List Action) :
    (play actions empty).IsForest ∧
      (issued actions empty).Nodup ∧
      issued actions empty = (List.range (play actions empty).next).map Int.ofNat ∧
      ∀ (a : Action) (e : Error) (g : Derivation),
        a.perform (play actions empty) = .error e g → g = play actions empty := by
  have hadvance := advance_play isForest_empty actions
  refine ⟨hadvance.isForest, ?_, ?_, fun a e g h => ?_⟩
  · rw [hadvance.created_eq]
    exact nodup_newIds _
  · rw [hadvance.created_eq, hadvance.next_eq, newIds, List.range_eq_range', empty, Nat.zero_add]
    rfl
  · have hsettles := a.perform_settles hadvance.isForest
    rw [h] at hsettles
    cases hsettles
    rfl

end Derivation

end GrammarTree
