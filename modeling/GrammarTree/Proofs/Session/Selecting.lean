import GrammarTree.Proofs.Session.Labelled
import GrammarTree.Proofs.Session.Missing
import GrammarTree.Proofs.Session.Slots

/-!
# A selection can always be completed

A session that is driven by lines and by changes of its grammar text never loses the node that it is
choosing an alternative for. This file proves that the slots of the selection stay in step over such
a history, that every alternative on offer can be chosen, and that no line finds the node gone.

A change of the grammar text goes through at any time, also during a selection. It does not touch
the selection, which keeps its rule, nor the derivation. So the node of the selection keeps the
label it had, which is the symbol of that rule, even when the text has no such rule any more.

What is here:

* `Session.run_ne_missing`: no line misses the node to expand;
* `Session.CanChoose`, what can be chosen, and `Session.canChoose_of_isLabelled`;
* `Session.Input` and `SlotSession.enterAll`, the histories of a session and of its slots;
* `Session.selection_in_step`, all of it for every history.
-/

set_option autoImplicit false

namespace GrammarTree

namespace Session

variable {s : Session}

/-! ## No choice misses its node

Two facts are put together. Only a choice can report that there is nothing to expand, and only if
the node of the selection is gone; and that node is never gone. -/

theorem not_lacksSelected (h : s.IsLabelled) : ¬ s.LacksSelected := by
  rintro ⟨selection, hselection, hgone⟩
  exact hgone (Derivation.contains_of_label? (h selection hselection))

/-- The errors of a choice are not about a node. -/
theorem names_execute_of_isLabelled (hs : s.derivation.IsForest) (h : s.IsLabelled) {c : Command}
    (hc : c.isIdle = false) : Edit.Names none (execute c s) := by
  have hlacks : s.LacksSelected → (none : Option Text) = some "expand".toList := fun hlacks =>
    absurd hlacks (not_lacksSelected h)
  cases c with
  | choose position => exact (names_choose hs hlacks _).andReturn _
  | endSelection => exact Edit.names_ok _ _
  | chooseMatching pattern => exact (names_chooseMatching hs hlacks _).andReturn _
  | _ => cases hc

theorem nodeOperation?_ne_expand {c : Command} (hc : c.isIdle = true) :
    c.nodeOperation? ≠ some "expand".toList := by
  cases c with
  | choose position => cases hc
  | chooseMatching pattern => cases hc
  | _ => simp [Command.nodeOperation?]

theorem run_ne_missing (hs : s.derivation.IsForest) (h : s.IsLabelled) (text : Text)
    (node : NodeId) (s' : Session) : run text s ≠ .error (.noSuchNode node "expand".toList) s' := by
  intro hrun
  have hreads := Command.readsAs_read text s.isSelecting
  rw [run_eq] at hrun
  cases hread : Command.read text s.isSelecting with
  | error e =>
    rw [hread] at hrun hreads
    cases hrun
    exact hreads _ _ rfl
  | ok c =>
    rw [hread] at hrun hreads
    cases hc : c.isIdle with
    | true => exact nodeOperation?_ne_expand hc (names_execute hs c _ _ _ hrun)
    | false => cases names_execute_of_isLabelled hs h hc _ _ _ hrun

/-! ## Every alternative can be chosen -/

/-- What can be chosen when a rule offers its alternatives for a node. -/
structure CanChoose (s : Session) (rule : Rule) (node : NodeId) : Prop where
  /-- The node is there. -/
  contains : s.derivation.contains node = true
  /-- The node carries the symbol of the rule. -/
  label : s.derivation.label? node = some rule.symbol
  /-- The rule has an alternative. -/
  nonempty : rule.alternatives ≠ []
  /-- Every position counted from 1 can be chosen. -/
  position : ∀ i : Int, 1 ≤ i → i ≤ rule.alternatives.length →
    ∃ created s', choose (some i) s = .ok created s'
  /-- The last alternative can be chosen without a position. -/
  last : ∃ created s', choose none s = .ok created s'

theorem exists_choose (hs : s.derivation.IsForest) {rule : Rule} {node : NodeId}
    (hselection : s.selection = some ⟨rule, node⟩) (hnode : s.derivation.contains node = true)
    {position : Option Int} (hpos : 1 ≤ position.getD rule.alternatives.length)
    (hle : position.getD rule.alternatives.length ≤ rule.alternatives.length) :
    ∃ created s', choose position s = .ok created s' := by
  have hchosen : ∃ alternative, alternativeAt? rule position = some alternative := by
    rw [alternativeAt?, if_neg (by omega)]
    exact ⟨_, List.getElem?_eq_getElem (by omega)⟩
  obtain ⟨alternative, hchosen⟩ := hchosen
  have hexpand := Derivation.expand_eq hs alternative node
  rw [if_pos hnode] at hexpand
  rw [choose_eq, hselection]
  simp only [hnode, if_true, hchosen, expandSelected, Edit.bind_apply, onDerivation, hexpand]
  exact ⟨_, _, rfl⟩

theorem canChoose_of_isLabelled (hs : s.derivation.IsForest) (h : s.IsLabelled) {rule : Rule}
    {node : NodeId} (hselection : s.selection = some ⟨rule, node⟩) : s.CanChoose rule node := by
  have hlabel := h ⟨rule, node⟩ hselection
  have hnode := Derivation.contains_of_label? hlabel
  have hlength : 1 ≤ rule.alternatives.length := by
    rw [Rule.alternatives, List.length_cons]
    omega
  refine ⟨hnode, hlabel, List.cons_ne_nil _ _, fun i hi hle => ?_, ?_⟩
  · exact exists_choose hs hselection hnode hi hle
  · refine exists_choose hs hselection hnode ?_ (Int.le_refl _)
    rw [Option.getD_none]
    omega

/-! ## Histories -/

/-- One input of a session that is driven by lines. -/
inductive Input where
  /-- Enters a line. -/
  | line (text : Text)
  /-- Replaces the grammar text. -/
  | grammar (text : Text)

/-- The action of an input. -/
def Input.action : Input → Action
  | line text => .run text
  | grammar text => .setGrammar text

theorem isLabelled_after (hs : s.derivation.IsForest) (h : s.IsLabelled) (input : Input) :
    (input.action.after s).IsLabelled := by
  cases input with
  | line text =>
    rw [Input.action, after_run]
    exact isLabelled_run hs h text
  | grammar text => exact h

theorem isLabelled_afterAll (hs : s.derivation.IsForest) (h : s.IsLabelled) (inputs : List Input) :
    (afterAll (inputs.map Input.action) s).IsLabelled := by
  induction inputs generalizing s with
  | nil => exact h
  | cons input inputs ih => exact ih (input.action.isForest_after hs) (isLabelled_after hs h input)

end Session

namespace SlotSession

open Session (Input slots)

/-- The slots after an input, whether or not it succeeds. -/
def enter : Input → SlotSession → SlotSession
  | .line text, t => Edit.finalState (run text) t
  | .grammar text, t => { t with grammar := text }

/-- The slots after some inputs. -/
def enterAll : List Input → SlotSession → SlotSession
  | [], t => t
  | input :: inputs, t => enterAll inputs (enter input t)

theorem enter_slots (input : Input) (s : Session) :
    enter input s.slots = (input.action.after s).slots := by
  cases input with
  | line text =>
    rw [enter, (simulates_run text).finalState, Input.action, Session.after_run]
  | grammar text => rfl

/-- Over every history the slots are those of the session. -/
theorem enterAll_slots (inputs : List Input) (s : Session) :
    enterAll inputs s.slots = (Session.afterAll (inputs.map Input.action) s).slots := by
  induction inputs generalizing s with
  | nil => rfl
  | cons input inputs ih => rw [enterAll, enter_slots, ih, List.map_cons, Session.afterAll]

end SlotSession

namespace Session

/-- **The slots of a selection stay in step, and it can always be completed.** -/
theorem selection_in_step (grammar : Text) (inputs : List Input) :
    let s := afterAll (inputs.map Input.action) (start grammar)
    let t := SlotSession.enterAll inputs (SlotSession.start grammar)
    t = s.slots ∧
      (t.mode = .select ↔ t.rule.isSome = true) ∧ (t.mode = .select ↔ t.node.isSome = true) ∧
      (t.mode = .select →
        ∃ rule node, t.rule = some rule ∧ t.node = some node ∧ s.CanChoose rule node) ∧
      ∀ text node s', run text s ≠ .error (.noSuchNode node "expand".toList) s' := by
  intro s t
  have hs : s.derivation.IsForest :=
    isForest_derivation_afterAll Derivation.isForest_empty (inputs.map Input.action)
  have hlabelled : s.IsLabelled :=
    isLabelled_afterAll Derivation.isForest_empty (isLabelled_of_none rfl) inputs
  have ht : t = s.slots := SlotSession.enterAll_slots inputs (start grammar)
  refine ⟨ht, ?_, ?_, fun hmode => ?_, run_ne_missing hs hlabelled⟩
  · rw [ht, slots_mode, slots_rule, Option.isSome_map, isSelecting]
  · rw [ht, slots_mode, slots_node, Option.isSome_map, isSelecting]
  · rw [ht, slots_mode, isSelecting] at hmode
    obtain ⟨⟨rule, node⟩, hselection⟩ := Option.isSome_iff_exists.1 hmode
    refine ⟨rule, node, ?_, ?_, canChoose_of_isLabelled hs hlabelled hselection⟩
    · rw [ht, slots_rule, hselection, Option.map_some]
    · rw [ht, slots_node, hselection, Option.map_some]

/-- A selection goes on when its rule is gone from the grammar text, and after a line that fails. -/
theorem selection_in_step_of_changed_grammar :
    let inputs : List Input :=
      [.line "+1".toList, .line ".".toList, .grammar [], .line "'z'".toList]
    let s := afterAll (inputs.map Input.action) (start "<s> ::= x | <s> y".toList)
    let t := SlotSession.enterAll inputs (SlotSession.start "<s> ::= x | <s> y".toList)
    s.rules = [] ∧ t.mode = .select ∧ ∃ rule, t.rule = some rule ∧
      rule.alternatives = ["x".toList, "<s> y".toList] ∧ s.CanChoose rule 0 := by
  intro inputs s t
  have hmode : t.mode = .select := by decide +kernel
  have hrules : s.rules = [] := by decide +kernel
  have hzero : t.node = some 0 := by decide +kernel
  have halternatives : t.rule.map Rule.alternatives = some ["x".toList, "<s> y".toList] := by
    decide +kernel
  obtain ⟨-, -, -, hchoose, -⟩ := selection_in_step "<s> ::= x | <s> y".toList inputs
  obtain ⟨rule, node, hrule, hnode, hcan⟩ := hchoose hmode
  obtain rfl := Option.some.inj (hnode.symm.trans hzero)
  have hrule' : t.rule = some rule := hrule
  rw [hrule', Option.map_some, Option.some_inj] at halternatives
  exact ⟨hrules, hmode, rule, hrule, halternatives, hcan⟩

end Session

end GrammarTree
