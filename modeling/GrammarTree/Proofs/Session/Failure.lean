import GrammarTree.Proofs.Session.Outcome

/-!
# What a failure leaves behind

A session is reached from a new one by actions: edits, commands, lines that are read as commands,
and changes of the grammar text, some of which fail. This file proves that an action that fails
leaves such a session as it was. The one exception is a choice for a node that is gone, which ends
the selection and nothing else.

The exception is a matter of the action and of the session before it, and is stated in these terms:
the action chooses an alternative, and the node of the selection does not exist. It can arise for
histories of edits only. A history of lines never loses the node of a selection, which is proved in
`Proofs.Session.Labelled`.

What is here:

* `Session.execute_settles` and `Session.run_settles`, for commands and lines;
* `Session.Action` and `Session.Action.perform`, the actions and the edits that they are;
* `Session.Reachable`, the sessions that actions lead to;
* `Session.unchanged_of_error`, what a failing action leaves.
-/

set_option autoImplicit false

namespace GrammarTree

/-- Whether a command chooses an alternative. -/
def Command.isChoice : Command → Bool
  | .choose _ => true
  | .chooseMatching _ => true
  | _ => false

namespace Session

variable {α : Type} {s : Session}

/-! ## Commands -/

theorem Settles.ofChoice {result : EStateM.Result Error Session α}
    (h : Settles s s.IsLoss result) {choice : Bool} (hchoice : choice = true) :
    Settles s (fun e => choice = true ∧ s.IsLoss e) result :=
  h.congr fun _ => ⟨fun hloss => ⟨hchoice, hloss⟩, And.right⟩

theorem Settles.ofOther {result : EStateM.Result Error Session α}
    (h : Settles s (fun _ => False) result) {choice : Bool} (hother : choice = false) :
    Settles s (fun e => choice = true ∧ s.IsLoss e) result := by
  refine h.congr fun e => ⟨False.elim, fun hloss => ?_⟩
  rw [hother] at hloss
  exact Bool.false_ne_true hloss.1

theorem execute_settles (hs : s.derivation.IsForest) (c : Command) :
    Settles s (fun e => c.isChoice = true ∧ s.IsLoss e) (execute c s) := by
  cases c with
  | draw mode => exact .done hs
  | newRoot rule => exact ((newRoot_settles hs rule).ofOther rfl).andReturn _
  | unlink node => exact ((unlink_settles hs node).ofOther rfl).andReturn _
  | makeCurrent node =>
    exact ((makeCurrent_settles hs node).ofOther rfl).andReturn _
  | delete node => exact ((delete_settles hs node).ofOther rfl).andReturn _
  | refill => exact (commits_refill.bind fun _ => commits_pure _).settles hs
  | skip => exact (commits_skip.bind fun _ => commits_pure _).settles hs
  | beginSelection node =>
    exact ((beginSelection_settles hs _).ofOther rfl).andReturn _
  | link parent child =>
    exact ((link_settles hs parent child).ofOther rfl).andReturn _
  | growPath pattern node =>
    exact ((growPath_settles hs _ pattern).ofOther rfl).andReturn _
  | choose position =>
    exact ((choose_settles hs _).ofChoice rfl).andReturn _
  | endSelection => exact (commits_endSelection.bind fun _ => commits_pure _).settles hs
  | chooseMatching pattern =>
    exact ((chooseMatching_settles hs pattern).ofChoice rfl).andReturn _

/-- Whether a line is read as a command that chooses an alternative. -/
def isChoiceLine (s : Session) (text : Text) : Bool :=
  match Command.read text s.isSelecting with
  | .ok c => c.isChoice
  | .error _ => false

theorem run_settles (hs : s.derivation.IsForest) (text : Text) :
    Settles s (fun e => s.isChoiceLine text = true ∧ s.IsLoss e) (run text s) := by
  rw [run, Edit.get_bind_apply, isChoiceLine]
  cases Command.read text s.isSelecting with
  | ok c => exact execute_settles hs c
  | error e => exact .refused (by simp)

/-! ## Actions

An action is an edit with its arguments, as a value. The answer of the edit is dropped, since only
the session after it is of interest to the next action. -/

/-- One action on a session with its arguments. -/
inductive Action where
  /-- Replaces the grammar text. -/
  | setGrammar (grammar : Text)
  /-- Creates a root node with the symbol of a numbered rule. -/
  | newRoot (number : Int)
  /-- Makes one node the parent of another. -/
  | link (parent child : NodeId)
  /-- Takes a node away from its parent. -/
  | unlink (node : NodeId)
  /-- Deletes a node with its descendants. -/
  | delete (node : NodeId)
  /-- Makes a node the current one. -/
  | makeCurrent (node : NodeId)
  /-- Refills the agenda. -/
  | refill
  /-- Drops the current node. -/
  | skip
  /-- Looks up the merged rule of a symbol. -/
  | lookUpRule (symbol : Text)
  /-- Starts choosing an alternative. -/
  | beginSelection (node : Option NodeId)
  /-- Ends the selection. -/
  | endSelection
  /-- Chooses the alternative at a position. -/
  | choose (position : Option Int)
  /-- Chooses the alternative that a pattern matches. -/
  | chooseMatching (pattern : Text)
  /-- Grows a path to the value that a pattern matches. -/
  | growPath (node : Option NodeId) (pattern : Text)
  /-- Applies a command. -/
  | execute (c : Command)
  /-- Reads a line as a command and applies it. -/
  | run (text : Text)

namespace Action

/-- The edit of an action. -/
def perform : Action → Edit Session Unit
  | setGrammar grammar => modify fun s => { s with grammar := grammar }
  | newRoot number => do let _ ← Session.newRoot number; return ()
  | link parent child => Session.link parent child
  | unlink node => do let _ ← Session.unlink node; return ()
  | delete node => do let _ ← Session.delete node; return ()
  | makeCurrent node => Session.makeCurrent node
  | refill => Session.refill
  | skip => do let _ ← Session.skip; return ()
  | lookUpRule symbol => do let _ ← Session.lookUpRule symbol; return ()
  | beginSelection node => do let _ ← Session.beginSelection node; return ()
  | endSelection => Session.endSelection
  | choose position => do let _ ← Session.choose position; return ()
  | chooseMatching pattern => do let _ ← Session.chooseMatching pattern; return ()
  | growPath node pattern => do let _ ← Session.growPath node pattern; return ()
  | execute c => do let _ ← Session.execute c; return ()
  | run text => do let _ ← Session.run text; return ()

/-- Whether an action chooses an alternative, by itself or as a command. -/
def isChoice : Action → Session → Bool
  | choose _, _ => true
  | chooseMatching _, _ => true
  | execute c, _ => c.isChoice
  | run text, s => s.isChoiceLine text
  | _, _ => false

/-- The action fails since it chooses an alternative for a node that is gone. -/
def LosesNode (a : Action) (s : Session) (e : Error) : Prop := a.isChoice s = true ∧ s.IsLoss e

/-- **Every action is all or nothing**, but for a choice for a node that is gone. -/
theorem perform_settles (hs : s.derivation.IsForest) (a : Action) :
    Settles s (a.LosesNode s) (a.perform s) := by
  cases a with
  | setGrammar grammar => exact .done hs
  | newRoot number =>
    exact ((newRoot_settles hs number).ofOther rfl).andReturn _
  | link parent child => exact (link_settles hs parent child).ofOther rfl
  | unlink node => exact ((unlink_settles hs node).ofOther rfl).andReturn _
  | delete node => exact ((delete_settles hs node).ofOther rfl).andReturn _
  | makeCurrent node => exact (makeCurrent_settles hs node).ofOther rfl
  | refill => exact commits_refill.settles hs
  | skip => exact (commits_skip.bind fun _ => commits_pure _).settles hs
  | lookUpRule symbol =>
    exact ((lookUpRule_settles hs symbol).ofOther rfl).andReturn _
  | beginSelection node =>
    exact ((beginSelection_settles hs node).ofOther rfl).andReturn _
  | endSelection => exact commits_endSelection.settles hs
  | choose position =>
    exact ((choose_settles hs position).ofChoice rfl).andReturn _
  | chooseMatching pattern =>
    exact ((chooseMatching_settles hs pattern).ofChoice rfl).andReturn _
  | growPath node pattern =>
    exact ((growPath_settles hs node pattern).ofOther rfl).andReturn _
  | execute c => exact (execute_settles hs c).andReturn _
  | run text => exact (run_settles hs text).andReturn _

/-- The session after an action, whether or not it succeeds. -/
def after (a : Action) (s : Session) : Session := Edit.finalState a.perform s

theorem isForest_after (hs : s.derivation.IsForest) (a : Action) :
    (a.after s).derivation.IsForest := by
  have hsettles := a.perform_settles hs
  rw [after, Edit.finalState]
  generalize a.perform s = result at hsettles ⊢
  cases hsettles with
  | done hs' => exact hs'
  | refused _ => exact hs
  | deselected _ => exact hs

end Action

/-! ## Histories -/

/-- The session after some actions. -/
def afterAll : List Action → Session → Session
  | [], s => s
  | a :: actions, s => afterAll actions (a.after s)

theorem isForest_derivation_afterAll (hs : s.derivation.IsForest) (actions : List Action) :
    (afterAll actions s).derivation.IsForest := by
  induction actions generalizing s with
  | nil => exact hs
  | cons a actions ih => exact ih (a.isForest_after hs)

/-- The sessions that some actions lead to, from a new session over some grammar text. -/
def Reachable (s : Session) : Prop := ∃ grammar actions, afterAll actions (start grammar) = s

theorem Reachable.isForest_derivation (h : s.Reachable) : s.derivation.IsForest := by
  obtain ⟨grammar, actions, rfl⟩ := h
  exact isForest_derivation_afterAll Derivation.isForest_empty actions

/-- **A failing action changes nothing**, except that a choice for a node that is gone ends the
selection. -/
theorem unchanged_of_error (hs : s.Reachable) {a : Action} {e : Error} {s' : Session}
    (h : a.perform s = .error e s') :
    s'.grammar = s.grammar ∧ s'.derivation = s.derivation ∧ s'.agenda = s.agenda ∧
      (¬ a.LosesNode s e → s'.selection = s.selection) ∧
      (a.LosesNode s e → s'.selection = none ∧ s'.isSelecting = false ∧ s'.alternatives = []) := by
  have hsettles := a.perform_settles hs.isForest_derivation
  rw [h] at hsettles
  cases hsettles with
  | refused hkept => exact ⟨rfl, rfl, rfl, fun _ => rfl, fun hlost => absurd hlost hkept⟩
  | deselected hlost =>
    exact ⟨rfl, rfl, rfl, fun hkept => absurd hlost hkept, fun _ => ⟨rfl, rfl, rfl⟩⟩

/-- A session that is choosing an alternative for a node that has been deleted. -/
def choosingForDeleted : Session :=
  afterAll [.newRoot 1, .beginSelection (some 0), .delete 0] (start "<s> ::= x".toList)

theorem selection_choosingForDeleted : ∃ rule, choosingForDeleted.selection = some ⟨rule, 0⟩ :=
  ⟨⟨none, ['s'], ['x'], [], by decide, by decide⟩, by decide +kernel⟩

/-- Another deletion of the node keeps the selection, and a choice ends it. -/
theorem unchanged_of_error_of_deleted_node :
    (∃ s', (Action.delete 0).perform choosingForDeleted =
        .error (.noSuchNode 0 "delete".toList) s' ∧
      s'.selection = choosingForDeleted.selection) ∧
    ∃ s', (Action.choose none).perform choosingForDeleted =
        .error (.noSuchNode 0 "expand".toList) s' ∧
      s'.derivation = choosingForDeleted.derivation ∧ s'.selection = none := by
  obtain ⟨rule, hselection⟩ := selection_choosingForDeleted
  have hgone : choosingForDeleted.derivation.contains 0 = false := by decide +kernel
  have hreachable : choosingForDeleted.Reachable := ⟨_, _, rfl⟩
  constructor
  · have herror : (Action.delete 0).perform choosingForDeleted =
        .error (.noSuchNode 0 "delete".toList) choosingForDeleted := by
      simp [Action.perform, delete, onDerivation, Derivation.delete_eq, hgone]
    have hkept : ¬ (Action.delete 0).LosesNode choosingForDeleted (.noSuchNode 0 "delete".toList) :=
      fun hlost => Bool.false_ne_true hlost.1
    exact ⟨_, herror, (unchanged_of_error hreachable herror).2.2.2.1 hkept⟩
  · have herror : (Action.choose none).perform choosingForDeleted =
        .error (.noSuchNode 0 "expand".toList) { choosingForDeleted with selection := none } := by
      simp [Action.perform, choose, endSelection, hselection, hgone]
    have hlost : (Action.choose none).LosesNode choosingForDeleted
        (.noSuchNode 0 "expand".toList) := ⟨rfl, _, hselection, hgone, rfl⟩
    have hunchanged := unchanged_of_error hreachable herror
    exact ⟨_, herror, hunchanged.2.1, (hunchanged.2.2.2.2 hlost).1⟩

end Session

end GrammarTree
