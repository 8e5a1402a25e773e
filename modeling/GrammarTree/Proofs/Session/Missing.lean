import GrammarTree.Proofs.Session.Outcome

/-!
# Errors about missing nodes

An error about a missing node says what could not be done with it. This file proves that a command
only ever says so about its own operation; in particular, only a choice reports that there is
nothing to expand.

An edit of a session may be put together from several steps, and each of them may fail for a missing
node. So the property is one of results, and it is passed along: a sequence of steps that name one
operation names it. Steps that cannot fail in this way name any operation.

What is here:

* `Edit.Names`, the results whose errors about missing nodes name one operation;
* `Command.nodeOperation?`, the operation of a command on a node;
* `Session.names_execute`: a command names its own operation.

That the node of a selection is never missing in a history of lines is not proved here; it is the
subject of `Proofs.Session.Selecting`.
-/

set_option autoImplicit false

namespace GrammarTree

namespace Edit

variable {σ α : Type}

/-- Whether an error about a missing node can only name one operation, or cannot arise. -/
def Names (operation? : Option Text) (result : EStateM.Result Error σ α) : Prop :=
  ∀ id operation s, result = .error (.noSuchNode id operation) s → operation? = some operation

variable {operation? : Option Text}

theorem names_ok (a : α) (s : σ) : Names operation? (.ok a s) := fun _ _ _ h => by cases h

theorem names_error {e : Error} {s : σ} (h : ∀ id operation, e ≠ .noSuchNode id operation) :
    Names operation? (.error e s : EStateM.Result Error σ α) := by
  intro id operation s' heq
  cases heq
  exact absurd rfl (h id operation)

/-- What an error names does not depend on the state that is left. -/
theorem Names.withState {τ β : Type} {e : Error} {s : σ}
    (h : Names operation? (.error e s : EStateM.Result Error σ α)) (s' : τ) :
    Names operation? (.error e s' : EStateM.Result Error τ β) := by
  intro id operation s'' heq
  cases heq
  exact h id operation s rfl

theorem Names.bind {β : Type} {edit : Edit σ α} {f : α → Edit σ β} {s : σ}
    (h : Names operation? (edit s)) (hf : ∀ a s', Names operation? (f a s')) :
    Names operation? ((edit >>= f) s) := by
  rw [bind_apply]
  generalize edit s = result at h ⊢
  cases result with
  | ok a s' => exact hf a s'
  | error e s' => exact h.withState s'

/-- Returning something else does not change how an edit fails. -/
theorem Names.andReturn {β : Type} {edit : Edit σ α} {s : σ} (h : Names operation? (edit s))
    (b : β) : Names operation? ((edit >>= fun _ => pure b) s) :=
  h.bind fun _ _ => names_ok _ _

theorem names_noSuchNode (id : NodeId) (operation : Text) (s : σ) :
    Names (some operation) (.error (.noSuchNode id operation) s : EStateM.Result Error σ α) := by
  intro id' operation' s' heq
  cases heq
  rfl

end Edit

/-- What a command reports that it cannot do when a node is missing. -/
def Command.nodeOperation? : Command → Option Text
  | .unlink _ => some "unlink".toList
  | .makeCurrent _ => some "focus".toList
  | .delete _ => some "delete".toList
  | .beginSelection _ => some "select".toList
  | .link _ _ => some "link".toList
  | .growPath _ _ => some "find a path from".toList
  | .choose _ => some "expand".toList
  | .chooseMatching _ => some "expand".toList
  | .draw _ => none
  | .newRoot _ => none
  | .refill => none
  | .skip => none
  | .endSelection => none

open Edit (Names)

namespace Derivation

variable {g : Derivation}

theorem names_require (id : NodeId) (operation : Text) :
    Names (some operation) (require id operation g) := by
  rw [require_eq]
  split
  · exact Edit.names_ok _ _
  · exact Edit.names_noSuchNode _ _ _

theorem names_link (parent child : NodeId) :
    Names (some "link".toList) (link parent child g) := by
  rw [link_eq]
  split
  · exact Edit.names_noSuchNode _ _ _
  · split
    · exact Edit.names_noSuchNode _ _ _
    · split
      · exact Edit.names_error fun _ _ h => by cases h
      · exact Edit.names_ok _ _

theorem names_unlink (child : NodeId) : Names (some "unlink".toList) (unlink child g) := by
  rw [unlink_eq]
  split
  · exact Edit.names_ok _ _
  · exact Edit.names_noSuchNode _ _ _

theorem names_delete (id : NodeId) : Names (some "delete".toList) (delete id g) := by
  rw [delete_eq]
  split
  · exact Edit.names_ok _ _
  · exact Edit.names_noSuchNode _ _ _

theorem names_growPath (hg : g.IsForest) (i : Index) (source : NodeId) (pattern : Text) :
    Names (some "find a path from".toList) (growPath i source pattern g) := by
  rw [growPath_eq hg]
  cases hchain : g.chainFrom i source pattern with
  | ok chain => exact Edit.names_ok _ _
  | error e =>
    obtain rfl | ⟨fault, rfl⟩ := eq_of_chainFrom_eq_error hchain
    · exact Edit.names_noSuchNode _ _ _
    · exact Edit.names_error fun _ _ h => by cases h

end Derivation

namespace Session

variable {α : Type} {s : Session} {operation? : Option Text}

theorem names_onDerivation {edit : Edit Derivation α}
    (h : Names operation? (edit s.derivation)) : Names operation? (onDerivation edit s) := by
  rw [onDerivation]
  generalize edit s.derivation = result at h ⊢
  cases result with
  | ok a g => exact Edit.names_ok _ _
  | error e g => exact h.withState _

theorem names_lookUpRule (symbol : Text) : Names operation? (lookUpRule symbol s) := by
  rw [lookUpRule_eq]
  split
  · exact Edit.names_ok _ _
  · exact Edit.names_error fun _ _ h => by cases h

theorem names_nodeOrCurrent_bind {f : NodeId → Edit Session α}
    (hf : ∀ id, Names operation? (f id s)) (node : Option NodeId) :
    Names operation? ((nodeOrCurrent node >>= f) s) := by
  rw [Edit.bind_apply]
  obtain ⟨id, hok⟩ | ⟨reason, herror⟩ := nodeOrCurrent_cases node s
  · rw [hok]
    exact hf id
  · rw [herror]
    exact Edit.names_error fun _ _ h => by cases h

/-! ## Commands

The node of a choice is that of the selection. Whether it can be missing is left open as a
hypothesis, since the answer is different for lines and for edits. -/

theorem names_newRoot (number : Int) : Names operation? (newRoot number s) := by
  rw [newRoot, Edit.get_bind_apply]
  cases Grammar.ruleNumbered? s.rules number with
  | none => exact Edit.names_error fun _ _ h => by cases h
  | some rule => exact Edit.names_ok _ _

theorem names_link (parent child : NodeId) :
    Names (some "link".toList) (link parent child s) :=
  (names_onDerivation (Derivation.names_link parent child)).bind fun _ _ => Edit.names_ok _ _

theorem names_unlink (node : NodeId) : Names (some "unlink".toList) (unlink node s) :=
  (names_onDerivation (Derivation.names_unlink node)).bind fun _ _ => Edit.names_ok _ _

theorem names_delete (node : NodeId) : Names (some "delete".toList) (delete node s) :=
  (names_onDerivation (Derivation.names_delete node)).bind fun _ _ => Edit.names_ok _ _

theorem names_makeCurrent (node : NodeId) : Names (some "focus".toList) (makeCurrent node s) :=
  (names_onDerivation (Derivation.names_require node _)).bind fun _ _ => Edit.names_ok _ _

theorem names_beginSelection (node : Option NodeId) :
    Names (some "select".toList) (beginSelection node s) := by
  refine names_nodeOrCurrent_bind (fun id => ?_) node
  rw [Edit.get_bind_apply]
  cases s.derivation.label? id with
  | none => exact Edit.names_noSuchNode id _ s
  | some label => exact (names_lookUpRule label).bind fun _ _ => Edit.names_ok _ _

theorem names_growPath (hs : s.derivation.IsForest) (node : Option NodeId) (pattern : Text) :
    Names (some "find a path from".toList) (growPath node pattern s) := by
  refine names_nodeOrCurrent_bind (fun id => ?_) node
  rw [Edit.get_bind_apply]
  exact (names_onDerivation (Derivation.names_growPath hs _ id pattern)).bind fun _ _ =>
    Edit.names_ok _ _

/-- The node of the selection is gone. -/
def LacksSelected (s : Session) : Prop :=
  ∃ selection, s.selection = some selection ∧ ¬ s.derivation.contains selection.node = true

theorem names_expandSelected (hs : s.derivation.IsForest) {node : NodeId}
    (hnode : s.derivation.contains node = true) (alternative : Text) :
    Names operation? (expandSelected node alternative s) := by
  refine (names_onDerivation ?_).bind fun _ _ => Edit.names_ok _ _
  rw [Derivation.expand_eq hs, if_pos hnode]
  exact Edit.names_ok _ _

/-- Only the node of the selection can be missing for a choice. -/
theorem names_choose (hs : s.derivation.IsForest)
    (h : s.LacksSelected → operation? = some "expand".toList) (position : Option Int) :
    Names operation? (choose position s) := by
  rw [choose_eq]
  cases hselection : s.selection with
  | none => exact Edit.names_error fun _ _ h => by cases h
  | some selection =>
    dsimp only
    split
    · rename_i hnode
      cases alternativeAt? selection.rule position with
      | none => exact Edit.names_error fun _ _ h => by cases h
      | some alternative => exact names_expandSelected hs hnode alternative
    · rename_i hnode
      rw [h ⟨selection, hselection, hnode⟩]
      exact Edit.names_noSuchNode _ _ _

theorem names_chooseMatching (hs : s.derivation.IsForest)
    (h : s.LacksSelected → operation? = some "expand".toList) (pattern : Text) :
    Names operation? (chooseMatching pattern s) := by
  obtain ⟨position, hchoose⟩ | ⟨reason, herror⟩ := chooseMatching_cases pattern s
  · rw [hchoose]
    exact names_choose hs h position
  · rw [herror]
    exact Edit.names_error fun _ _ h => by cases h

/-- **A command that misses a node names its own operation.** -/
theorem names_execute (hs : s.derivation.IsForest) (c : Command) :
    Names c.nodeOperation? (execute c s) := by
  cases c with
  | draw mode => exact Edit.names_ok _ _
  | newRoot rule => exact (names_newRoot _).andReturn _
  | unlink node => exact (names_unlink _).andReturn _
  | makeCurrent node => exact (names_makeCurrent _).andReturn _
  | delete node => exact (names_delete _).andReturn _
  | refill => exact Edit.names_ok _ _
  | skip => exact Edit.names_ok _ _
  | beginSelection node => exact (names_beginSelection _).andReturn _
  | link parent child => exact (names_link _ _).andReturn _
  | growPath pattern node => exact (names_growPath hs _ _).andReturn _
  | choose position => exact (names_choose hs (fun _ => rfl) _).andReturn _
  | endSelection => exact Edit.names_ok _ _
  | chooseMatching pattern =>
    exact (names_chooseMatching hs (fun _ => rfl) _).andReturn _

end Session

end GrammarTree
