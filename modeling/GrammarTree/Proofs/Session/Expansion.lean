import GrammarTree.Proofs.Derivation.Extension
import GrammarTree.Proofs.Grammar.Merged
import GrammarTree.Proofs.Session.Effect

/-!
# What a choice adds

A choice turns the tokens of an alternative into nodes. This file says what has changed after it, in
the derivation, on the agenda and in the selection, and what has not. The new nodes have numbers
above all others, so that they come after the children that the node may have from an earlier
choice.

The statement is made in terms of look-ups, and compares the sessions before and after node by node:
new nodes have the labels and the parent that they should have, and nodes that were there have kept
both. A choice that is repeated for one node is not a special case of it.

What is here:

* `Session.Expands`, the sessions that differ in such a way;
* `Session.expands_applyTo`: it is the effect of an expansion;
* `Session.Reachable.offersMerged`: what is offered are the alternatives of a merged rule;
* `Session.choose_expands_node`: every valid position can be chosen, and this is what it does.
-/

set_option autoImplicit false

namespace GrammarTree

namespace Session

variable {s s' : Session} {node : NodeId} {labels : List Text}

/-- What has changed from one session to another when a node has got a new child for each of some
labels, and the selection is over. -/
structure Expands (s : Session) (node : NodeId) (labels : List Text) (s' : Session) : Prop where
  /-- The numbers up to those of the new nodes are handed out. -/
  next : s'.derivation.next = s.derivation.next + labels.length
  /-- The new nodes come in addition to the others. -/
  contains : ∀ x, s'.derivation.contains x = true ↔
    s.derivation.contains x = true ∨ x ∈ s.derivation.newIds labels.length
  /-- The new nodes have the labels, in order. -/
  labelled : (s.derivation.newIds labels.length).map s'.derivation.label? = labels.map some
  /-- The new nodes hang from the node. -/
  parents : ∀ x ∈ s.derivation.newIds labels.length, s'.derivation.parent? x = some node
  /-- The node has them as children after those that it had. -/
  children : s'.derivation.children node =
    s.derivation.children node ++ s.derivation.newIds labels.length
  /-- No other label and no other link has changed. -/
  kept : ∀ x, x ∉ s.derivation.newIds labels.length →
    s'.derivation.label? x = s.derivation.label? x ∧
      s'.derivation.parent? x = s.derivation.parent? x
  /-- The placeholders among the new nodes are in front of the agenda, in order, and the first
  occurrence of the node is not on it any more. -/
  agenda : s'.agenda.ids =
    (s.derivation.newIds labels.length).filter s'.derivation.isPlaceholder ++
      s.agenda.ids.erase node
  /-- No alternative is being chosen. -/
  selection : s'.selection = none
  /-- The grammar text is the same. -/
  grammar : s'.grammar = s.grammar

theorem expands_applyTo (hs : s.derivation.IsForest) (hnode : s.derivation.contains node = true)
    (a : Text) : s.Expands node (Alternative.tokens a) ((Effect.expand node a).applyTo s) where
  next := Derivation.next_withChildren node _
  contains _ := hs.contains_withChildren hnode _
  labelled := hs.label?_withChildren hnode _
  parents _ hx := hs.parent?_withChildren hnode hx
  children := Derivation.children_withChildren node _
  kept x hx := by
    have hfind := Derivation.find?_withChildren_of_notMem node hx
    exact ⟨congrArg (Option.map Node.label) hfind, congrArg (Option.bind · Node.parent) hfind⟩
  agenda := rfl
  selection := rfl
  grammar := rfl

/-! ## Choices -/

/-- A choice has the effect of an expansion, and returns the new numbers. -/
theorem choose_eq_ok_of_alternativeAt? (hs : s.derivation.IsForest) {rule : Rule}
    (hselection : s.selection = some ⟨rule, node⟩) (hnode : s.derivation.contains node = true)
    {position : Option Int} {a : Text} (ha : alternativeAt? rule position = some a) :
    choose position s = .ok (s.derivation.newIds (Alternative.tokens a).length)
      ((Effect.expand node a).applyTo s) := by
  have hexpand := Derivation.expand_eq hs a node
  rw [if_pos hnode] at hexpand
  rw [choose_eq, hselection]
  simp only [hnode, if_true, ha, expandSelected, Edit.bind_apply, onDerivation, hexpand]
  rfl

/-- A valid position stands for an alternative; without a position it is the last one. -/
theorem exists_alternativeAt? {rule : Rule} {position : Option Int}
    (h : ∀ i ∈ position, 1 ≤ i ∧ i ≤ rule.alternatives.length) :
    ∃ a, alternativeAt? rule position = some a ∧
      (∀ i ∈ position, rule.alternatives[(i - 1).toNat]? = some a) ∧
      (position = none → rule.alternatives.getLast? = some a) := by
  have hlength : 1 ≤ rule.alternatives.length := by
    rw [Rule.alternatives, List.length_cons]
    omega
  cases position with
  | none =>
    have hlast : ((rule.alternatives.length : Int) - 1).toNat = rule.alternatives.length - 1 := by
      omega
    have hbound : rule.alternatives.length - 1 < rule.alternatives.length := by omega
    have hget := List.getElem?_eq_getElem hbound
    refine ⟨rule.alternatives[rule.alternatives.length - 1], ?_,
      fun i hi => absurd hi (Option.not_mem_none i), fun _ => ?_⟩
    · rw [alternativeAt?, Option.getD_none, if_neg (by omega), hlast, hget]
    · rw [List.getLast?_eq_getElem?, hget]
  | some i =>
    obtain ⟨hi, hle⟩ := h i rfl
    have hbound : (i - 1).toNat < rule.alternatives.length := by omega
    have hget := List.getElem?_eq_getElem hbound
    refine ⟨rule.alternatives[(i - 1).toNat], ?_, fun j hj => ?_, fun hnone => by cases hnone⟩
    · rw [alternativeAt?, Option.getD_some, if_neg (by omega), hget]
    · cases hj
      exact hget

/-! ## The rule of a selection

A selection may be older than the grammar text, so its rule need not be a rule of the session any
more. It was the merged rule of some text. -/

/-- Whether the rule of the selection is a merged rule of some grammar text, be it that the text has
changed since. -/
def OffersMerged (s : Session) : Prop :=
  ∀ selection, s.selection = some selection →
    ∃ grammar, Grammar.merged? (Grammar.rules grammar) selection.rule.symbol = some selection.rule

theorem Reachable.offersMerged (hs : s.Reachable) : s.OffersMerged := by
  refine hs.induction (fun _ _ h => by cases h) fun s e _ harises h => ?_
  cases e with
  | beginSelection selection =>
    rintro _ ⟨⟩
    obtain ⟨label, -, hrule⟩ := harises
    exact ⟨s.grammar, by rwa [Grammar.symbol_of_merged? hrule]⟩
  | endSelection => exact fun _ h => by cases h
  | expand node a => exact fun _ h => by cases h
  | _ => exact h

/-- **A choice adds one child for each token of its alternative, and changes nothing else** but the
agenda and the selection. The alternative is one of a merged rule: the one at the position, or the
last one. -/
theorem choose_expands_node (hs : s.Reachable) {rule : Rule}
    (hselection : s.selection = some ⟨rule, node⟩) (hnode : s.derivation.contains node = true)
    {position : Option Int} (hposition : ∀ i ∈ position, 1 ≤ i ∧ i ≤ rule.alternatives.length) :
    (∃ grammar, Grammar.merged? (Grammar.rules grammar) rule.symbol = some rule) ∧
      ∃ a s', ((∀ i ∈ position, rule.alternatives[(i - 1).toNat]? = some a) ∧
          (position = none → rule.alternatives.getLast? = some a)) ∧
        choose position s = .ok (s.derivation.newIds (Alternative.tokens a).length) s' ∧
        s.Expands node (Alternative.tokens a) s' := by
  refine ⟨hs.offersMerged ⟨rule, node⟩ hselection, ?_⟩
  obtain ⟨a, ha, hposition⟩ := exists_alternativeAt? hposition
  have hforest := hs.isForest_derivation
  exact ⟨a, _, hposition, choose_eq_ok_of_alternativeAt? hforest hselection hnode ha,
    expands_applyTo hforest hnode a⟩

/-- A session that is choosing again for a node that has been expanded before. -/
def choosingAgain : Session :=
  afterAll [.newRoot 1, .beginSelection (some 0), .choose (some 1), .beginSelection (some 0)]
    (start "<s> ::= a <t> <u> | \n<t> ::= x".toList)

theorem selection_choosingAgain : ∃ rule, choosingAgain.selection = some ⟨rule, 0⟩ ∧
    rule.alternatives = ["a <t> <u>".toList, []] :=
  ⟨⟨none, ['s'], "a <t> <u>".toList, [[]], by decide, by decide⟩, by decide +kernel, rfl⟩

/-- The three nodes of the first alternative come after the three that are there, and the two
placeholders among them in front of the two on the agenda; the last alternative is empty and adds
none. -/
theorem choose_expands_node_of_expanded_twice :
    choosingAgain.derivation.children 0 = [1, 2, 3] ∧ choosingAgain.agenda.ids = [2, 3] ∧
      (∃ s', choose (some 1) choosingAgain = .ok [4, 5, 6] s' ∧
        s'.derivation.children 0 = [1, 2, 3, 4, 5, 6] ∧
        [4, 5, 6].map s'.derivation.label? = ["a".toList, "<t>".toList, "<u>".toList].map some ∧
        s'.selection = none) ∧
      ∃ s', choose none choosingAgain = .ok [] s' ∧ s'.derivation.children 0 = [1, 2, 3] ∧
        s'.agenda.ids = [2, 3] ∧ s'.selection = none := by
  obtain ⟨rule, hselection, halternatives⟩ := selection_choosingAgain
  have hreachable : choosingAgain.Reachable := ⟨_, _, rfl⟩
  have hnode : choosingAgain.derivation.contains 0 = true := by decide +kernel
  have hchildren : choosingAgain.derivation.children 0 = [1, 2, 3] := by decide +kernel
  have hagenda : choosingAgain.agenda.ids = [2, 3] := by decide +kernel
  have hthree : choosingAgain.derivation.newIds 3 = [4, 5, 6] := by decide +kernel
  have htokens : Alternative.tokens "a <t> <u>".toList =
      ["a".toList, "<t>".toList, "<u>".toList] := by decide +kernel
  have hsome : ∀ i ∈ (some 1 : Option Int), 1 ≤ i ∧ i ≤ rule.alternatives.length := by
    simp [halternatives]
  have hnone : ∀ i ∈ (none : Option Int), 1 ≤ i ∧ i ≤ rule.alternatives.length :=
    fun i hi => absurd hi (Option.not_mem_none i)
  refine ⟨hchildren, hagenda, ?_, ?_⟩
  · obtain ⟨-, a, s', ⟨ha, -⟩, hchoose, hexpands⟩ :=
      choose_expands_node hreachable hselection hnode hsome
    have hfirst := ha 1 rfl
    rw [halternatives] at hfirst
    cases hfirst
    have hadded := hexpands.children
    have hlabels := hexpands.labelled
    rw [htokens] at hchoose hadded hlabels
    refine ⟨s', hthree ▸ hchoose, ?_, hthree ▸ hlabels, hexpands.selection⟩
    rw [hadded, hchildren]
    exact congrArg ([1, 2, 3] ++ ·) hthree
  · obtain ⟨-, a, s', ⟨-, ha⟩, hchoose, hexpands⟩ :=
      choose_expands_node hreachable hselection hnode hnone
    have hlast := ha rfl
    rw [halternatives] at hlast
    obtain rfl : [] = a := Option.some.inj hlast
    have hnothing : Alternative.tokens [] = [] := by decide +kernel
    rw [hnothing] at hchoose hexpands
    refine ⟨s', hchoose, ?_, ?_, hexpands.selection⟩
    · rw [hexpands.children, hchildren]
      rfl
    · rw [hexpands.agenda, hagenda]
      rfl

end Session

end GrammarTree
