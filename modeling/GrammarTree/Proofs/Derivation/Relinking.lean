import GrammarTree.Proofs.Derivation.History

/-!
# Links that would close a cycle

A link gives a node another parent, in place of the one that it may have. Whether it is refused is
decided on the way up from the new parent, while the old link is still there. One may wonder whether
this refuses too much: if the way up ran through the old link of the node, taking that link away
could open it. This file proves that the test is right. A way up that reaches the node has used no
link above the node, so the old link is not part of it, and what is refused would have closed a
cycle.

The converse is what keeps derivations forests: a link that is made closes no cycle, since any cycle
would have to run through the new link and come back to the new parent by a way that was there
before.

What is here:

* `Derivation.HasCycle`, and `Derivation.hasCycle_setParent_iff`: which new parents close a cycle;
* `Derivation.Relinks`, all that a link changes, with `Derivation.IsForest.relinks_setParent`;
* `Derivation.link_rejects_only_cycles`: when a link fails and why, and what it does otherwise.
-/

set_option autoImplicit false

namespace GrammarTree

namespace Derivation

variable {g g' : Derivation} {parent child : NodeId}

/-! ## Cycles

A cycle is a node that is one of its own ancestors, and it is stated without reference to the
invariant: the derivation after a refused link is not a forest, so nothing about forests can be said
of it. -/

/-- Whether some node is one of its own ancestors. -/
def HasCycle (g : Derivation) : Prop := ∃ id, Relation.TransGen g.HangsFrom id id

theorem IsForest.not_hasCycle (hg : g.IsForest) : ¬ g.HasCycle := by
  rintro ⟨id, hcycle⟩
  obtain ⟨parent, hstep, hup⟩ := Relation.TransGen.head'_iff.1 hcycle
  exact hg.not_descends hstep hup

/-- The way up to a node does not use the parent of this node, so that it stays when the node gets
another parent. -/
theorem descends_setParent (hchild : g.contains child = true) (parent : Option NodeId) {x : NodeId}
    (h : g.Descends x child) : (g.setParent child parent).Descends x child := by
  induction h using Relation.ReflTransGen.head_induction_on with
  | refl => exact Relation.ReflTransGen.refl
  | @head x above hstep _ ih =>
    by_cases hx : x = child
    · exact hx ▸ Relation.ReflTransGen.refl
    · refine Relation.ReflTransGen.head ?_ ih
      rw [HangsFrom, parent?_setParent hchild, if_neg hx]
      exact hstep

section

variable (hg : g.IsForest) (hparent : g.contains parent = true) (hchild : g.contains child = true)

include hg hparent hchild

theorem isForest_setParent_of_not_descends (h : ¬ g.Descends parent child) :
    (g.setParent child (some parent)).IsForest := by
  refine hg.setParent hchild fun p hp => ?_
  obtain rfl := Option.some.inj hp
  exact ⟨hparent, h⟩

/-- **A new parent closes a cycle exactly when its way up passes through the node.** -/
theorem hasCycle_setParent_iff :
    (g.setParent child (some parent)).HasCycle ↔ g.Descends parent child := by
  constructor
  · intro hcycle
    by_contra h
    exact (isForest_setParent_of_not_descends hg hparent hchild h).not_hasCycle hcycle
  · intro h
    have hstep : (g.setParent child (some parent)).HangsFrom child parent := by
      rw [HangsFrom, parent?_setParent hchild, if_pos rfl]
    exact ⟨child, Relation.TransGen.head' hstep (descends_setParent hchild (some parent) h)⟩

theorem isForest_setParent_iff :
    (g.setParent child (some parent)).IsForest ↔ ¬ g.Descends parent child := by
  refine ⟨fun hforest h => ?_, isForest_setParent_of_not_descends hg hparent hchild⟩
  exact hforest.not_hasCycle ((hasCycle_setParent_iff hg hparent hchild).2 h)

end

/-! ## What a link changes -/

/-- What has changed when a node has got a parent. -/
structure Relinks (g : Derivation) (parent child : NodeId) (g' : Derivation) : Prop where
  /-- The nodes are the same. -/
  ids_eq : g'.ids = g.ids
  /-- No number has been handed out. -/
  next_eq : g'.next = g.next
  /-- The labels are the same. -/
  label?_eq : ∀ x, g'.label? x = g.label? x
  /-- The child hangs from its new parent, and every other node from the parent it had. -/
  parent?_eq : ∀ x, g'.parent? x = if x = child then some parent else g.parent? x
  /-- The new parent has the child besides its other children. -/
  mem_children : ∀ x, x ∈ g'.children parent ↔ x = child ∨ x ∈ g.children parent
  /-- Every other node has its children in their order, without the child. -/
  children_eq : ∀ x, x ≠ parent → g'.children x = (g.children x).filter (· ≠ child)

theorem children_setParent {x : NodeId} {parent : Option NodeId} (hne : parent ≠ some x)
    (child : NodeId) :
    (g.setParent child parent).children x = (g.children x).filter (· ≠ child) := by
  rw [children, children, setParent]
  induction g.nodes with
  | nil => rfl
  | cons n nodes ih =>
    rw [List.map_cons, List.filter_cons, List.filter_cons]
    by_cases hn : n.id = child
    · simpa [hn, hne, List.filter_cons, apply_ite] using ih
    · by_cases hx : n.parent = some x
      · simpa [hn, hx] using ih
      · simpa [hn, hx] using ih

theorem IsForest.relinks_setParent (hg : g.IsForest) (hchild : g.contains child = true)
    (hforest : (g.setParent child (some parent)).IsForest) :
    Relinks g parent child (g.setParent child (some parent)) where
  ids_eq := ids_setParent child (some parent)
  next_eq := rfl
  label?_eq := label?_setParent child (some parent)
  parent?_eq := parent?_setParent hchild (some parent)
  mem_children := by
    intro x
    rw [Derivation.mem_children hforest.nodup, Derivation.mem_children hg.nodup,
      parent?_setParent hchild]
    by_cases hx : x = child
    · simp [hx]
    · simp [hx]
  children_eq := by
    intro x hx
    exact children_setParent (fun heq => hx (Option.some.inj heq).symm) child

/-! ## Links -/

section

variable (hg : g.IsForest) (hparent : g.contains parent = true) (hchild : g.contains child = true)

include hg hparent hchild

theorem link_of_descends (h : g.Descends parent child) :
    link parent child g = .error (.cyclicLink parent child) g := by
  simp only [link_eq, hparent, hchild, hg.mem_lineage_iff.2 h, Bool.true_eq_false, if_false,
    if_true]

theorem link_of_not_descends (h : ¬ g.Descends parent child) :
    link parent child g = .ok () (g.setParent child (some parent)) := by
  simp only [link_eq, hparent, hchild, mt hg.mem_lineage_iff.1 h, Bool.true_eq_false, if_false]

end

/-- **A link is refused only for a missing node or for a cycle.** It names a missing node exactly
when one of the two does not exist. If both exist, it is refused exactly when the child is the
parent or one of its ancestors, which is exactly when it would close a cycle. A refused link changes
nothing, and every link that leaves a forest is made. -/
theorem link_rejects_only_cycles (hg : g.Reachable) (parent child : NodeId) :
    ((∃ id operation, link parent child g = .error (.noSuchNode id operation) g) ↔
      g.contains parent = false ∨ g.contains child = false) ∧
    (link parent child g = .error (.cyclicLink parent child) g ↔
      g.contains parent = true ∧ g.contains child = true ∧ g.Descends parent child) ∧
    (g.contains parent = true → g.contains child = true →
      (g.Descends parent child ↔ (g.setParent child (some parent)).HasCycle)) ∧
    (∀ e g', link parent child g = .error e g' → g' = g) ∧
    (∀ g', link parent child g = .ok () g' → Relinks g parent child g' ∧ g'.IsForest) ∧
    ((∃ g', link parent child g = .ok () g') ↔ g.contains parent = true ∧
      g.contains child = true ∧ (g.setParent child (some parent)).IsForest) := by
  have hforest := hg.isForest
  cases hparent : g.contains parent with
  | false => simp [link_eq, hparent]
  | true =>
    cases hchild : g.contains child with
    | false => simp [link_eq, hparent, hchild]
    | true =>
      have hcycle := hasCycle_setParent_iff hforest hparent hchild
      have hkept := isForest_setParent_iff hforest hparent hchild
      by_cases hup : g.Descends parent child
      · have hlink := link_of_descends hforest hparent hchild hup
        simp [hlink, hup, hcycle, hkept]
      · have hlink := link_of_not_descends hforest hparent hchild hup
        have hnew := hkept.2 hup
        have hchanges := hforest.relinks_setParent hchild hnew
        simp [hlink, hup, hcycle, hnew, hchanges]

/-- In a row of three nodes the last one cannot get the first one below it. The first one can get
the last one below it, which then leaves the node between them. -/
theorem link_rejects_only_cycles_of_three_in_a_row :
    let g := play [.newNode "a".toList, .newNode "b".toList, .newNode "c".toList, .link 0 1,
      .link 1 2] empty
    g.Reachable ∧ link 2 0 g = .error (.cyclicLink 2 0) g ∧
      ∃ g', link 0 2 g = .ok () g' ∧ g'.parent? 2 = some 0 ∧ g'.parent? 1 = some 0 ∧
        g'.children 1 = [] := by
  intro g
  have hg : g.Reachable := ⟨_, rfl⟩
  have hup : g.Descends 2 0 := hg.isForest.mem_lineage_iff.1 (by decide +kernel)
  have hfree : ¬ g.Descends 0 2 := mt hg.isForest.mem_lineage_iff.2 (by decide +kernel)
  obtain ⟨-, hcyclic, -⟩ := link_rejects_only_cycles hg 2 0
  obtain ⟨-, -, -, -, hmade, hiff⟩ := link_rejects_only_cycles hg 0 2
  obtain ⟨g', hg'⟩ := hiff.2 ⟨by decide +kernel, by decide +kernel,
    (isForest_setParent_iff hg.isForest (by decide +kernel) (by decide +kernel)).2 hfree⟩
  have hchanges := (hmade g' hg').1
  refine ⟨hg, hcyclic.2 ⟨by decide +kernel, by decide +kernel, hup⟩, g', hg', ?_, ?_, ?_⟩
  · rw [hchanges.parent?_eq, if_pos rfl]
  · rw [hchanges.parent?_eq]
    decide +kernel
  · rw [hchanges.children_eq 1 (by decide)]
    decide +kernel

end Derivation

end GrammarTree
