import GrammarTree.Proofs.Derivation.History

/-!
# The effect of a deletion

Deleting a node takes away its subtree and nothing else. Only one node can need work again because
of it: the former parent, if the deleted node was its only child. This file puts the effects of a
deletion together in one statement: the answer, the nodes that are left with their labels and
parents, and the incomplete nodes.

Nothing is computed here. What the sweep removes is known from `Proofs.Derivation.Subtree`, and the
outcome of the edit from `Proofs.Derivation.Edits`; what is left is to say when a node that had
children has none any more. This happens to the parent of the deleted node and to no other one,
since every child of any other node goes or stays together with it.

What is here:

* `Derivation.children_eq_singleton_iff`, an only child in terms of the look-ups;
* `Derivation.mem_incomplete_withoutSubtree`, the incomplete nodes after a deletion;
* `Derivation.delete_removes_subtree`, all effects of a deletion together.
-/

set_option autoImplicit false

namespace GrammarTree

namespace Derivation

variable {g : Derivation}

theorem children_eq_singleton_iff (hids : g.ids.Nodup) {id child : NodeId} :
    g.children id = [child] ↔ ∀ x, g.parent? x = some id ↔ x = child := by
  constructor
  · intro h x
    rw [← mem_children hids, h, List.mem_singleton]
  · intro h
    refine List.perm_singleton.1 ((List.perm_ext_iff_of_nodup (nodup_children hids id)
      (List.nodup_singleton child)).2 fun x => ?_)
    rw [mem_children hids, h, List.mem_singleton]

/-- A deletion makes at most one node incomplete: the former parent, when it loses its only
child. -/
theorem mem_incomplete_withoutSubtree (hg : g.IsForest) {id : NodeId}
    (hid : g.contains id = true) (x : NodeId) :
    x ∈ (g.withoutSubtree id).incomplete ↔
      (x ∈ g.incomplete ∧ ¬ g.Descends x id) ∨
        (g.parent? id = some x ∧ g.isPlaceholder x = true ∧ g.children x = [id]) := by
  have hids := hg.nodup
  rw [mem_incomplete (hg.withoutSubtree hid).nodup, isPlaceholder_withoutSubtree hg hid,
    mem_incomplete hids, children_eq_singleton_iff hids]
  constructor
  · rintro ⟨⟨hplaceholder, hx⟩, hchildless⟩
    -- A child of a node that is left descends from the deleted node only by being it.
    have honly : ∀ child, g.parent? child = some x → child = id := by
      intro child hchild
      by_contra hne
      refine hchildless child ((parent?_withoutSubtree hg hid).2 ⟨hchild, fun hup => ?_⟩)
      exact ((descends_iff hchild).1 hup).elim hne hx
    by_cases hparent : g.parent? id = some x
    · refine Or.inr ⟨hparent, hplaceholder, fun child => ⟨honly child, ?_⟩⟩
      rintro rfl
      exact hparent
    · refine Or.inl ⟨⟨hplaceholder, fun child hchild => ?_⟩, hx⟩
      exact hparent (honly child hchild ▸ hchild)
  · rintro (⟨⟨hplaceholder, hchildless⟩, hx⟩ | ⟨hparent, hplaceholder, honly⟩)
    · refine ⟨⟨hplaceholder, hx⟩, fun child hchild => ?_⟩
      exact hchildless child ((parent?_withoutSubtree hg hid).1 hchild).1
    · refine ⟨⟨hplaceholder, hg.not_descends hparent⟩, fun child hchild => ?_⟩
      obtain ⟨hchild, hup⟩ := (parent?_withoutSubtree hg hid).1 hchild
      rw [(honly child).1 hchild] at hup
      exact hup Relation.ReflTransGen.refl

/-- **A deletion removes exactly one subtree.** -/
theorem delete_removes_subtree (hg : g.Reachable) {id : NodeId} (hid : g.contains id = true) :
    ∃ g', delete id g = .ok (g.parent? id) g' ∧
      g'.next = g.next ∧
      (∀ x, g'.contains x = true ↔ g.contains x = true ∧ ¬ g.Descends x id) ∧
      (∀ x, g'.contains x = true → g'.label? x = g.label? x ∧ g'.parent? x = g.parent? x) ∧
      (∀ link ∈ g'.links, ¬ g.Descends link.1 id ∧ ¬ g.Descends link.2 id) ∧
      ∀ x, x ∈ g'.incomplete ↔
        (x ∈ g.incomplete ∧ ¬ g.Descends x id) ∨
          (g.parent? id = some x ∧ g.isPlaceholder x = true ∧ g.children x = [id]) := by
  have hforest := hg.isForest
  have hkept : ∀ x, (g.withoutSubtree id).contains x = true → ¬ g.Descends x id := fun x hx =>
    ((contains_withoutSubtree hforest hid).1 hx).2
  refine ⟨g.withoutSubtree id, ?_, next_withoutSubtree id,
    fun x => contains_withoutSubtree hforest hid, fun x hx => ?_, fun link hlink => ?_,
    mem_incomplete_withoutSubtree hforest hid⟩
  · rw [delete_eq, if_pos hid]
  · rw [label?, parent?, find?_withoutSubtree hforest hid (hkept x hx)]
    exact ⟨rfl, rfl⟩
  · obtain ⟨hparent, hchild⟩ := (hforest.withoutSubtree hid).linked link hlink
    exact ⟨hkept _ hparent, hkept _ hchild⟩

/-- Deleting the only child of a placeholder takes the grandchild away too, and leaves the
placeholder incomplete; a sibling tree stays. -/
theorem delete_removes_subtree_of_only_child :
    let g := play [.newNode "<s>".toList, .newNode "<a>".toList, .newNode "x".toList,
      .newNode "<b>".toList, .link 0 1, .link 1 2] empty
    g.Reachable ∧ g.contains 1 = true ∧
      ∃ g', delete 1 g = .ok (some 0) g' ∧ g'.contains 2 = false ∧ 0 ∈ g'.incomplete ∧
        3 ∈ g'.incomplete := by
  intro g
  have hg : g.Reachable := ⟨_, rfl⟩
  have hid : g.contains 1 = true := by decide +kernel
  have hparent : g.parent? 1 = some 0 := by decide +kernel
  obtain ⟨g', hdelete, -, hcontains, -, -, hincomplete⟩ := delete_removes_subtree hg hid
  rw [hparent] at hdelete
  refine ⟨hg, hid, g', hdelete, ?_, (hincomplete 0).2 (Or.inr ?_), (hincomplete 3).2 (Or.inl ?_)⟩
  · rw [← Bool.not_eq_true, hcontains]
    have hup : g.Descends 2 1 := Relation.ReflTransGen.single (by rw [HangsFrom]; decide +kernel)
    exact fun h => h.2 hup
  · exact ⟨hparent, by decide +kernel, by decide +kernel⟩
  · refine ⟨by decide +kernel, fun hup => ?_⟩
    exact absurd (descends_of_root (by decide +kernel : g.parent? 3 = none) hup) (by decide)

end Derivation

end GrammarTree
