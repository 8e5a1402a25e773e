import GrammarTree.Proofs.Grammar.Merged
import GrammarTree.Proofs.Session.Effect
import GrammarTree.Proofs.Session.Frame

/-!
# The node of a selection

During a selection no line edits the derivation without ending the selection, and outside of one
only the start of a selection can make one. The node of the selection therefore stays the node that
it was begun for, whatever is entered. This file proves it, one command at a time.

The reason is in the command language: the commands that a line can be read as are different ones
during a selection and outside of it. A history of edits has no such restriction, and a node may
well be deleted while an alternative is being chosen for it. So the invariant is one of lines, and
not one of effects.

What is here:

* `Session.EndsIdle`: choices leave no selection;
* `Session.IsLabelled`, the invariant that ties the selection to the derivation;
* `Session.isLabelled_run`: every line keeps it.
-/

set_option autoImplicit false

namespace GrammarTree

namespace Session

variable {α β : Type} {s : Session}

/-! ## Choices end the selection -/

/-- Whether an edit that succeeds leaves no selection. -/
def EndsIdle (edit : Edit Session α) : Prop :=
  ∀ s a s', edit s = .ok a s' → s'.selection = none

theorem EndsIdle.ofBind {edit : Edit Session α} {f : α → Edit Session β}
    (hf : ∀ a, EndsIdle (f a)) : EndsIdle (edit >>= f) := by
  intro s b s' h
  obtain ⟨a, s'', -, hrest⟩ := Edit.exists_of_bind_eq_ok h
  exact hf a s'' b s' hrest

theorem endsIdle_expandSelected (node : NodeId) (alternative : Text) :
    EndsIdle (expandSelected node alternative) := by
  refine EndsIdle.ofBind fun _ => EndsIdle.ofBind fun _ => EndsIdle.ofBind fun _ =>
    EndsIdle.ofBind fun _ => fun _ _ _ h => ?_
  cases h
  rfl

theorem endsIdle_choose (position : Option Int) : EndsIdle (choose position) := by
  intro s created s' h
  rw [choose_eq] at h
  split at h
  · cases h
  · split at h
    · split at h
      · cases h
      · exact endsIdle_expandSelected _ _ s created s' h
    · cases h

theorem endsIdle_chooseMatching (pattern : Text) : EndsIdle (chooseMatching pattern) := by
  intro s created s' h
  obtain ⟨position, hchoose⟩ | ⟨reason, herror⟩ := chooseMatching_cases pattern s
  · rw [hchoose] at h
    exact endsIdle_choose position s created s' h
  · rw [herror] at h
    cases h

theorem EndsIdle.andReturn {edit : Edit Session α} (h : EndsIdle edit) (b : β) :
    EndsIdle (edit >>= fun _ => pure b) := by
  intro s b' s' hok
  obtain ⟨a, s'', hedit, hreturn⟩ := Edit.exists_of_bind_eq_ok hok
  cases hreturn
  exact h s a s' hedit

theorem endsIdle_execute {c : Command} (hc : c.isIdle = false) : EndsIdle (execute c) := by
  cases c with
  | choose position => exact (endsIdle_choose _).andReturn _
  | endSelection => exact fun _ _ _ h => by cases h; rfl
  | chooseMatching pattern => exact (endsIdle_chooseMatching _).andReturn _
  | _ => cases hc

/-! ## The selected node

Outside a selection there is nothing to keep, and the start of a selection makes the invariant true.
During a selection a command ends it, or fails and changes nothing. -/

/-- Whether the selected node is there and carries the symbol of the selected rule. -/
def IsLabelled (s : Session) : Prop :=
  ∀ selection, s.selection = some selection →
    s.derivation.label? selection.node = some selection.rule.symbol

theorem isLabelled_of_none (h : s.selection = none) : s.IsLabelled := by
  intro selection hselection
  rw [h] at hselection
  cases hselection

/-- A selection that begins is for a node that is there, and for the rule of its label. -/
theorem isLabelled_beginSelection {node : Option NodeId} {rule : Rule} {s' : Session}
    (h : beginSelection node s = .ok rule s') : s'.IsLabelled := by
  obtain ⟨_, ⟨selection, rfl⟩, ⟨label, hlabel, hrule⟩, rfl⟩ := beginSelection_yields node rule s' h
  intro selected hselected
  cases hselected
  rw [Grammar.symbol_of_merged? hrule]
  exact hlabel

/-- Outside a selection a command leaves none, unless it begins one. -/
theorem isLabelled_of_idle {c : Command} (hc : c.isIdle = true) (hnone : s.selection = none)
    {output : Option Text} {s' : Session} (h : execute c s = .ok output s') : s'.IsLabelled := by
  by_cases hbegin : ∃ node, c = .beginSelection node
  · obtain ⟨node, rfl⟩ := hbegin
    obtain ⟨rule, s'', hbegin, hreturn⟩ := Edit.exists_of_bind_eq_ok h
    cases hreturn
    exact isLabelled_beginSelection hbegin
  · have hframe := (frames_execute hc fun node heq => hbegin ⟨node, heq⟩).eq_withSelection s
    rw [h, hnone, Edit.mapState] at hframe
    injection hframe with _ hstate
    rw [hstate]
    exact isLabelled_of_none rfl

theorem isLabelled_execute (hs : s.derivation.IsForest) (h : s.IsLabelled) {c : Command}
    (hc : c.isIdle = !s.isSelecting) : (Edit.finalState (execute c) s).IsLabelled := by
  have hsettles := execute_settles hs c
  rw [Edit.finalState]
  cases hresult : execute c s with
  | error e s' =>
    rw [hresult] at hsettles
    cases hsettles with
    | refused _ => exact h
    | deselected _ => exact isLabelled_of_none rfl
  | ok output s' =>
    cases hselecting : s.isSelecting with
    | true =>
      rw [hselecting] at hc
      exact isLabelled_of_none (endsIdle_execute hc s output s' hresult)
    | false =>
      rw [hselecting] at hc
      rw [isSelecting, Option.isSome_eq_false_iff, Option.isNone_iff_eq_none] at hselecting
      exact isLabelled_of_idle hc hselecting hresult

theorem run_eq (text : Text) :
    run text s = match Command.read text s.isSelecting with
      | .ok c => execute c s
      | .error e => .error e s := by
  rw [run, Edit.get_bind_apply]
  cases Command.read text s.isSelecting <;> rfl

theorem isLabelled_run (hs : s.derivation.IsForest) (h : s.IsLabelled) (text : Text) :
    (Edit.finalState (run text) s).IsLabelled := by
  have hreads := Command.readsAs_read text s.isSelecting
  rw [Edit.finalState, run_eq]
  cases hread : Command.read text s.isSelecting with
  | ok c =>
    rw [hread] at hreads
    exact isLabelled_execute hs h hreads
  | error e => exact h

end Session

end GrammarTree
