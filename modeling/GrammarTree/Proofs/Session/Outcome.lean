import GrammarTree.Proofs.Derivation.Advance
import GrammarTree.Session.Basic

/-!
# How the edits of a session end

An edit of a session checks its arguments, edits the derivation, and then moves the agenda and the
selection along. Only the last two cannot fail, so that an edit is all or nothing when the edit of
the derivation is. This file proves it for every edit, over any session whose derivation is a
forest. The one exception is a choice for a node that is gone, which also ends the selection.

That the edit of the derivation is all or nothing is not obvious either. A path adds a node and
links it, again and again, and a link may fail. It does not fail here, because nothing descends from
a node that was just created, and what comes first in the sequence has found the source; this was
proved with the derivations, and only the result is used.

What is here:

* `Session.Commits`, the edits that cannot fail;
* `Session.Settles`, the ways in which an edit may end, and `Session.IsLoss`, the errors that end
  the selection;
* that every edit settles, one lemma for each.
-/

set_option autoImplicit false

namespace GrammarTree

namespace Session

variable {α β : Type} {s : Session} {lost : Error → Prop}

/-! ## Edits that cannot fail -/

/-- Over a forest the edit succeeds, and it leaves a forest. -/
def Commits (edit : Edit Session α) : Prop :=
  ∀ s : Session, s.derivation.IsForest →
    ∃ a s', edit s = .ok a s' ∧ s'.derivation.IsForest

theorem commits_pure (a : α) : Commits (pure a) :=
  fun s hs => ⟨a, s, rfl, hs⟩

theorem commits_get : Commits (get : Edit Session Session) :=
  fun s hs => ⟨s, s, rfl, hs⟩

theorem commits_onAgenda (change : Agenda → Agenda) : Commits (onAgenda change) :=
  fun s hs => ⟨(), { s with agenda := change s.agenda }, rfl, hs⟩

theorem commits_endSelection : Commits endSelection :=
  fun s hs => ⟨(), { s with selection := none }, rfl, hs⟩

theorem Commits.bind {edit : Edit Session α} {f : α → Edit Session β} (h : Commits edit)
    (hf : ∀ a, Commits (f a)) : Commits (edit >>= f) := by
  intro s hs
  obtain ⟨a, s', hok, hs'⟩ := h s hs
  obtain ⟨b, s'', hrest, hs''⟩ := hf a s' hs'
  refine ⟨b, s'', ?_, hs''⟩
  rw [Edit.bind_apply, hok]
  show f a s' = .ok b s''
  exact hrest

/-! ## The ways to end

An edit that settles has failed without a change, or has failed with a loss, or has succeeded and
left a forest. One step that settles, followed by steps that cannot fail, settles. -/

/-- How an edit may end when it is all or nothing, but for the errors that end the selection. -/
inductive Settles (s : Session) (lost : Error → Prop) : EStateM.Result Error Session α → Prop where
  /-- The edit succeeds and leaves a forest. -/
  | done {a : α} {s' : Session} (h : s'.derivation.IsForest) : Settles s lost (.ok a s')
  /-- The edit fails and leaves the session as it is. -/
  | refused {e : Error} (h : ¬ lost e) : Settles s lost (.error e s)
  /-- The edit fails and ends the selection. -/
  | deselected {e : Error} (h : lost e) : Settles s lost (.error e { s with selection := none })

theorem Settles.congr {lost' : Error → Prop} {result : EStateM.Result Error Session α}
    (h : Settles s lost result) (hlost : ∀ e, lost e ↔ lost' e) : Settles s lost' result := by
  cases h with
  | done h => exact .done h
  | refused h => exact .refused fun h' => h ((hlost _).2 h')
  | deselected h => exact .deselected ((hlost _).1 h)

/-- An edit that cannot fail settles wherever it is applied on the way. -/
theorem Commits.settles {edit : Edit Session α} {s' : Session} (h : Commits edit)
    (hs' : s'.derivation.IsForest) : Settles s lost (edit s') := by
  obtain ⟨a, s'', hok, hs''⟩ := h s' hs'
  rw [hok]
  exact .done hs''

/-- What follows the only step that may fail does not change how the edit settles. -/
theorem Settles.bind {edit : Edit Session α} {f : α → Edit Session β}
    (h : Settles s lost (edit s)) (hf : ∀ a, Commits (f a)) :
    Settles s lost ((edit >>= f) s) := by
  rw [Edit.bind_apply]
  generalize edit s = result at h ⊢
  cases h with
  | @done a s' hs' =>
    show Settles s lost (f a s')
    exact (hf a).settles hs'
  | refused h => exact .refused h
  | deselected h => exact .deselected h

theorem Settles.andReturn {edit : Edit Session α} (h : Settles s lost (edit s)) (b : β) :
    Settles s lost ((edit >>= fun _ => pure b) s) :=
  h.bind fun _ => commits_pure b

theorem onDerivation_settles {ids : α → List NodeId} {edit : Edit Derivation α}
    (h : Derivation.Settles s.derivation ids (edit s.derivation)) :
    Settles s (fun _ => False) (onDerivation edit s) := by
  rw [onDerivation]
  generalize edit s.derivation = result at h ⊢
  cases h with
  | done h => exact .done h.isForest
  | refused e => exact .refused id

/-! ## Looking things up -/

theorem lookUpRule_eq (symbol : Text) :
    lookUpRule symbol s = match Grammar.merged? s.rules symbol with
      | some rule => .ok rule s
      | none => .error (.noRuleFor symbol) s := by
  rw [lookUpRule, Edit.get_bind_apply]
  cases Grammar.merged? s.rules symbol <;> rfl

theorem lookUpRule_settles (hs : s.derivation.IsForest) (symbol : Text) :
    Settles s (fun _ => False) (lookUpRule symbol s) := by
  rw [lookUpRule_eq]
  split
  · exact .done hs
  · exact .refused id

theorem nodeOrCurrent_some_bind (id : NodeId) (f : NodeId → Edit Session α) (s : Session) :
    (nodeOrCurrent (some id) >>= f) s = f id s := rfl

/-- Looking for the current node does not change the session. -/
theorem nodeOrCurrent_cases (node : Option NodeId) (s : Session) :
    (∃ id, nodeOrCurrent node s = .ok id s) ∨
      ∃ reason, nodeOrCurrent node s = .error (.selection reason) s := by
  cases node with
  | some id => exact Or.inl ⟨id, rfl⟩
  | none =>
    rw [nodeOrCurrent, Edit.get_bind_apply]
    cases s.agenda.current? with
    | some id => exact Or.inl ⟨id, rfl⟩
    | none => exact Or.inr ⟨_, rfl⟩

theorem nodeOrCurrent_bind_settles {f : NodeId → Edit Session α}
    (hf : ∀ id, Settles s (fun _ => False) (f id s)) (node : Option NodeId) :
    Settles s (fun _ => False) ((nodeOrCurrent node >>= f) s) := by
  rw [Edit.bind_apply]
  obtain ⟨id, hok⟩ | ⟨reason, herror⟩ := nodeOrCurrent_cases node s
  · rw [hok]
    exact hf id
  · rw [herror]
    exact .refused id

/-! ## Edits of the derivation -/

theorem newRoot_settles (hs : s.derivation.IsForest) (number : Int) :
    Settles s (fun _ => False) (newRoot number s) := by
  rw [newRoot, Edit.get_bind_apply]
  cases Grammar.ruleNumbered? s.rules number with
  | none => exact .refused id
  | some rule =>
    exact (onDerivation_settles (Derivation.newNode_settles hs rule.symbol)).bind fun _ =>
      (commits_onAgenda _).bind fun _ => commits_pure _

theorem link_settles (hs : s.derivation.IsForest) (parent child : NodeId) :
    Settles s (fun _ => False) (link parent child s) :=
  (onDerivation_settles (Derivation.link_settles hs parent child)).bind fun _ => commits_onAgenda _

theorem unlink_settles (hs : s.derivation.IsForest) (node : NodeId) :
    Settles s (fun _ => False) (unlink node s) :=
  (onDerivation_settles (Derivation.unlink_settles hs node)).bind fun _ =>
    (commits_onAgenda _).bind fun _ => commits_pure _

theorem delete_settles (hs : s.derivation.IsForest) (node : NodeId) :
    Settles s (fun _ => False) (delete node s) :=
  (onDerivation_settles (Derivation.delete_settles hs node)).bind fun _ =>
    commits_get.bind fun _ => (commits_onAgenda _).bind fun _ =>
      (commits_onAgenda _).bind fun _ => commits_pure _

/-! ## The agenda -/

theorem makeCurrent_settles (hs : s.derivation.IsForest) (node : NodeId) :
    Settles s (fun _ => False) (makeCurrent node s) :=
  (onDerivation_settles (Derivation.require_settles hs node _)).bind fun _ => commits_onAgenda _

theorem commits_refill : Commits refill := commits_get.bind fun _ => commits_onAgenda _

theorem commits_skip : Commits skip :=
  commits_get.bind fun _ => (commits_onAgenda _).bind fun _ => commits_pure _

/-! ## Selections

A choice is first brought into another form, in which all its checks come before its one edit. Which
alternative it is about is then a value, and can be spoken of without the edit. -/

theorem beginSelection_settles (hs : s.derivation.IsForest) (node : Option NodeId) :
    Settles s (fun _ => False) (beginSelection node s) := by
  refine nodeOrCurrent_bind_settles (fun id => ?_) node
  rw [Edit.get_bind_apply]
  cases s.derivation.label? id with
  | none => exact .refused fun h => h
  | some label =>
    exact (lookUpRule_settles hs label).bind fun rule s' hs' => ⟨rule, _, rfl, hs'⟩

/-- The alternative of a rule at a position counted from 1, or the last one. -/
def alternativeAt? (rule : Rule) (position : Option Int) : Option Text :=
  if position.getD rule.alternatives.length < 1 then none
  else rule.alternatives[(position.getD rule.alternatives.length - 1).toNat]?

/-- Expands an alternative below the selected node. -/
def expandSelected (node : NodeId) (alternative : Text) : Edit Session (List NodeId) := do
  let created ← onDerivation (Derivation.expand alternative node)
  onAgenda (.remove node)
  let g := (← get).derivation
  onAgenda (.prepend (g.placeholders created))
  endSelection
  return created

/-- The checks of a choice come before its one edit. -/
theorem choose_eq (position : Option Int) :
    choose position s = match s.selection with
      | none => .error (.selection SelectionFault.notSelecting.reason) s
      | some ⟨rule, node⟩ =>
        if s.derivation.contains node then
          match alternativeAt? rule position with
          | none => .error (.selection
              (SelectionFault.noAlternative (position.getD rule.alternatives.length)).reason) s
          | some alternative => expandSelected node alternative s
        else .error (.noSuchNode node "expand".toList) { s with selection := none } := by
  rw [choose, Edit.get_bind_apply]
  cases s.selection with
  | none => rfl
  | some selection =>
    obtain ⟨rule, node⟩ := selection
    simp only [Edit.ite_apply, alternativeAt?]
    split
    · generalize (if position.getD rule.alternatives.length < 1 then none
        else rule.alternatives[(position.getD rule.alternatives.length - 1).toNat]?) = chosen
      cases chosen <;> rfl
    · rfl

/-- Choosing by a pattern is choosing by a position, unless no single alternative matches. -/
theorem chooseMatching_cases (pattern : Text) (s : Session) :
    (∃ position, chooseMatching pattern s = choose position s) ∨
      ∃ reason, chooseMatching pattern s = .error (.selection reason) s := by
  rw [chooseMatching, Edit.get_bind_apply]
  cases onlyMatch? (fun item => matchesPattern pattern item.1) (s.alternatives.zipIdx 1) with
  | some item => exact Or.inl ⟨_, rfl⟩
  | none =>
    cases s.alternatives.countP (matchesPattern pattern) with
    | zero => exact Or.inr ⟨_, rfl⟩
    | succ count => exact Or.inr ⟨_, rfl⟩

/-- The selected node is gone, and this is the error that says so. -/
def IsLoss (s : Session) (e : Error) : Prop :=
  ∃ selection, s.selection = some selection ∧ s.derivation.contains selection.node = false ∧
    e = .noSuchNode selection.node "expand".toList

theorem not_isLoss_selection (reason : Text) : ¬ s.IsLoss (.selection reason) := by
  rintro ⟨_, -, -, heq⟩
  cases heq

theorem expandSelected_settles (hs : s.derivation.IsForest) (node : NodeId) (alternative : Text) :
    Settles s (fun _ => False) (expandSelected node alternative s) :=
  (onDerivation_settles (Derivation.expand_settles hs alternative node)).bind fun _ =>
    (commits_onAgenda _).bind fun _ => commits_get.bind fun _ =>
      (commits_onAgenda _).bind fun _ => commits_endSelection.bind fun _ => commits_pure _

theorem choose_settles (hs : s.derivation.IsForest) (position : Option Int) :
    Settles s s.IsLoss (choose position s) := by
  rw [choose_eq]
  cases hselection : s.selection with
  | none => exact .refused (not_isLoss_selection _)
  | some selection =>
    obtain ⟨rule, node⟩ := selection
    dsimp only
    cases hnode : s.derivation.contains node with
    | false => exact .deselected ⟨⟨rule, node⟩, hselection, hnode, rfl⟩
    | true =>
      -- No error of a node that is there is an error of a node that is gone.
      have hfound : ∀ e, False ↔ s.IsLoss e := by
        refine fun e => ⟨False.elim, ?_⟩
        rintro ⟨selection, hsome, hgone, -⟩
        rw [hselection] at hsome
        cases hsome
        rw [hnode] at hgone
        cases hgone
      simp only [if_true]
      cases alternativeAt? rule position with
      | none => exact .refused (not_isLoss_selection _)
      | some alternative => exact (expandSelected_settles hs node alternative).congr hfound

theorem chooseMatching_settles (hs : s.derivation.IsForest) (pattern : Text) :
    Settles s s.IsLoss (chooseMatching pattern s) := by
  obtain ⟨position, hchoose⟩ | ⟨reason, herror⟩ := chooseMatching_cases pattern s
  · rw [hchoose]
    exact choose_settles hs position
  · rw [herror]
    exact .refused (not_isLoss_selection reason)

/-! ## Paths -/

theorem growPath_settles (hs : s.derivation.IsForest) (node : Option NodeId) (pattern : Text) :
    Settles s (fun _ => False) (growPath node pattern s) := by
  refine nodeOrCurrent_bind_settles (fun id => ?_) node
  rw [Edit.get_bind_apply]
  exact (onDerivation_settles (Derivation.growPath_settles hs _ id pattern)).bind fun _ =>
    (commits_onAgenda _).bind fun _ => (commits_onAgenda _).bind fun _ => commits_pure _

end Session

end GrammarTree
