import GrammarTree.Proofs.Derivation.Forest

/-!
# Deleting a subtree

To delete a node with all that hangs from it, the program removes nodes one at a time from a list of
pending ones: the first is taken out of the table, and its children, which are then without a
parent, become pending. This file proves that in a forest this removes the pending nodes with all
their descendants and touches nothing else.

The invariant is that the pending nodes are roots of what is left, and that none is listed twice. It
is kept by every step, since the children of a removed root become roots. What lies below the
pending nodes is the same before and after a step, the removed node aside, and with that both halves
of the result are inductions along the sweep: a node below is removed at some point, and a node that
is not below is never reached.

The order of the pending nodes is no part of the invariant. Where a node puts its children, in front
or behind, changes the order of the removals and not the result, and `sweep_perm` says so for any
order. `Proofs.Derivation.Traversal` relies on it for a loop that puts the children of a node in
front in reverse.

What is here:

* `Derivation.IsPending`, the invariant of the pending nodes, with the step that keeps it;
* `Derivation.find?_sweep_of_below` and `Derivation.find?_sweep_of_not_below`, what a sweep removes
  and what it leaves;
* `Derivation.mem_sweep` and `Derivation.nodup_sweep`: the removed nodes are those below the pending
  ones, each once, and `Derivation.sweep_perm`: in whatever order the nodes are pending;
* `Derivation.withoutSubtree`, a derivation after the deletion of a node, with its look-ups and its
  incomplete nodes.
-/

set_option autoImplicit false

namespace GrammarTree

namespace Derivation

variable {g : Derivation}

/-! ## The pending nodes -/

/-- The nodes that a sweep has yet to remove: roots of the forest that is left, each listed once. -/
structure IsPending (g : Derivation) (pending : List NodeId) : Prop where
  /-- No node is listed twice. -/
  nodup : pending.Nodup
  /-- All of them are nodes. -/
  contained : ∀ id ∈ pending, g.contains id = true
  /-- None of them has a parent. -/
  root : ∀ id ∈ pending, g.parent? id = none

theorem IsPending.perm {pending pending' : List NodeId} (h : g.IsPending pending)
    (hperm : pending.Perm pending') : g.IsPending pending' where
  nodup := hperm.nodup_iff.1 h.nodup
  contained := fun id hid => h.contained id (hperm.mem_iff.2 hid)
  root := fun id hid => h.root id (hperm.mem_iff.2 hid)

theorem nodup_children (hids : g.ids.Nodup) (id : NodeId) : (g.children id).Nodup :=
  hids.sublist (List.filter_sublist.map Node.id)

/-- When a pending node is removed, its children become pending. -/
theorem IsPending.step (hg : g.IsForest) {id : NodeId} {pending : List NodeId}
    (h : g.IsPending (id :: pending)) : (g.remove id).IsPending (g.children id ++ pending) := by
  obtain ⟨hid, hpending⟩ := List.nodup_cons.1 h.nodup
  have hroot : g.parent? id = none := h.root id (List.mem_cons_self ..)
  have hchild : ∀ x ∈ g.children id, g.parent? x = some id := fun x hx =>
    (mem_children hg.nodup).1 hx
  -- A child has a parent, so it is neither the removed node nor one of the other pending nodes.
  have hne : ∀ x ∈ g.children id ++ pending, x ≠ id := by
    rintro x hx rfl
    rcases List.mem_append.1 hx with hx | hx
    · rw [hchild x hx] at hroot
      cases hroot
    · exact hid hx
  refine ⟨List.nodup_append.2 ⟨nodup_children hg.nodup id, hpending, ?_⟩, ?_, ?_⟩
  · rintro x hx y hy rfl
    have hnone := h.root x (List.mem_cons_of_mem _ hy)
    rw [hchild x hx] at hnone
    cases hnone
  · intro x hx
    refine (contains_remove id x).2 ⟨hne x hx, ?_⟩
    rcases List.mem_append.1 hx with hx | hx
    · exact contains_of_parent? (hchild x hx)
    · exact h.contained x (List.mem_cons_of_mem _ hx)
  · intro x hx
    rw [parent?_remove, if_neg (hne x hx)]
    rcases List.mem_append.1 hx with hx | hx
    · rw [hchild x hx, Option.filter_some]
      simp
    · rw [h.root x (List.mem_cons_of_mem _ hx), Option.filter_none]

/-! ## What lies below the pending nodes

Removing a node cuts every way up that runs through it. Such a way now ends at a child of the
removed node, and this child is pending after the step, so that nothing that lay below the pending
nodes is lost. -/

/-- Whether a node is one of some nodes or descends from one of them. -/
def Below (g : Derivation) (tops : List NodeId) (x : NodeId) : Prop :=
  ∃ top ∈ tops, g.Descends x top

theorem below_congr {pending pending' : List NodeId} (hperm : pending.Perm pending') (x : NodeId) :
    g.Below pending x ↔ g.Below pending' x := by
  simp only [Below, hperm.mem_iff]

theorem descends_of_remove {id x top : NodeId} (h : (g.remove id).Descends x top) :
    g.Descends x top :=
  Relation.ReflTransGen.mono (fun _ _ hstep => (parent?_remove_eq_some_iff.1 hstep).2.2) _ _ h

/-- A way up to a node without parent runs through one of its children, or starts at it. -/
theorem descends_child (hg : g.IsForest) {id x : NodeId} (h : g.Descends x id) :
    x = id ∨ ∃ child ∈ g.children id, (g.remove id).Descends x child := by
  induction h using Relation.ReflTransGen.head_induction_on with
  | refl => exact Or.inl rfl
  | @head x parent hparent _ ih =>
    by_cases hx : x = id
    · exact Or.inl hx
    · rcases ih with rfl | ⟨child, hchild, hup⟩
      · exact Or.inr ⟨x, (mem_children hg.nodup).2 hparent, Relation.ReflTransGen.refl⟩
      · by_cases hid : parent = id
        · exact Or.inr ⟨x, (mem_children hg.nodup).2 (hid ▸ hparent), Relation.ReflTransGen.refl⟩
        · have hstep := parent?_remove_eq_some_iff.2 ⟨hx, hid, hparent⟩
          exact Or.inr ⟨child, hchild, Relation.ReflTransGen.head hstep hup⟩

/-- The way up to another node either avoids the removed one or runs through it. -/
theorem descends_remove_or (id : NodeId) {x top : NodeId} (h : g.Descends x top) :
    (g.remove id).Descends x top ∨ g.Descends x id := by
  induction h using Relation.ReflTransGen.head_induction_on with
  | refl => exact Or.inl Relation.ReflTransGen.refl
  | @head x parent hparent _ ih =>
    by_cases hx : x = id
    · exact Or.inr (hx ▸ Relation.ReflTransGen.refl)
    · by_cases hid : parent = id
      · exact Or.inr (Relation.ReflTransGen.single (hid ▸ hparent))
      · rcases ih with hup | hup
        · have hstep := parent?_remove_eq_some_iff.2 ⟨hx, hid, hparent⟩
          exact Or.inl (Relation.ReflTransGen.head hstep hup)
        · exact Or.inr (Relation.ReflTransGen.head hparent hup)

/-- One step of a sweep keeps what lies below the pending nodes, the removed node aside. -/
theorem below_step (hg : g.IsForest) {id : NodeId} {pending : List NodeId} {x : NodeId}
    (hx : x ≠ id) :
    (g.remove id).Below (g.children id ++ pending) x ↔ g.Below (id :: pending) x := by
  constructor
  · rintro ⟨top, htop, hup⟩
    have hup := descends_of_remove hup
    rcases List.mem_append.1 htop with htop | htop
    · exact ⟨id, List.mem_cons_self .., hup.tail ((mem_children hg.nodup).1 htop)⟩
    · exact ⟨top, List.mem_cons_of_mem _ htop, hup⟩
  · have hchild : g.Descends x id → (g.remove id).Below (g.children id ++ pending) x := by
      intro h
      obtain ⟨child, hmem, hup⟩ := (descends_child hg h).resolve_left hx
      exact ⟨child, List.mem_append_left _ hmem, hup⟩
    rintro ⟨top, htop, hup⟩
    rcases List.mem_cons.1 htop with rfl | htop
    · exact hchild hup
    · rcases descends_remove_or id hup with hup | hup
      · exact ⟨top, List.mem_append_right _ htop, hup⟩
      · exact hchild hup

/-! ## The sweep -/

@[simp] theorem next_sweep (pending : List NodeId) : (g.sweep pending).2.next = g.next := by
  fun_induction sweep g pending with
  | case1 => rfl
  | case2 g id pending swept ih => exact ih

theorem IsForest.sweep (hg : g.IsForest) (pending : List NodeId) :
    (g.sweep pending).2.IsForest := by
  fun_induction Derivation.sweep g pending with
  | case1 => exact hg
  | case2 g id pending swept ih => exact ih (hg.remove id)

/-- A sweep removes the pending nodes and everything below them. -/
theorem find?_sweep_of_below (hg : g.IsForest) {pending : List NodeId} (h : g.IsPending pending)
    {x : NodeId} (hx : g.Below pending x) : (g.sweep pending).2.find? x = none := by
  have hgone : ∀ {g : Derivation} {pending : List NodeId}, g.find? x = none →
      (g.sweep pending).2.find? x = none := by
    intro g pending hnone
    fun_induction sweep g pending with
    | case1 => exact hnone
    | case2 g id pending swept ih =>
      refine ih ?_
      rw [find?_remove, hnone, Option.map_none, ite_self]
  fun_induction sweep g pending with
  | case1 g =>
    obtain ⟨top, htop, -⟩ := hx
    cases htop
  | case2 g id pending swept ih =>
    by_cases hid : x = id
    · exact hgone (by rw [find?_remove, if_pos hid])
    · exact ih (hg.remove id) (h.step hg) ((below_step hg hid).2 hx)

/-- A sweep leaves all other nodes as they are. -/
theorem find?_sweep_of_not_below (hg : g.IsForest) {pending : List NodeId} (h : g.IsPending pending)
    {x : NodeId} (hx : ¬ g.Below pending x) : (g.sweep pending).2.find? x = g.find? x := by
  fun_induction sweep g pending with
  | case1 => rfl
  | case2 g id pending swept ih =>
    have hid : x ≠ id := by
      rintro rfl
      exact hx ⟨x, List.mem_cons_self .., Relation.ReflTransGen.refl⟩
    have hrest := ih (hg.remove id) (h.step hg) fun hbelow => hx ((below_step hg hid).1 hbelow)
    refine hrest.trans ?_
    rw [find?_remove, if_neg hid]
    cases hn : g.find? x with
    | none => rfl
    | some n =>
      -- A child of the removed node would lie below it.
      have hparent : n.parent ≠ some id := by
        intro hparent
        have hstep : g.HangsFrom x id := by rw [HangsFrom, parent?, hn, Option.bind_some, hparent]
        exact hx ⟨id, List.mem_cons_self .., Relation.ReflTransGen.single hstep⟩
      rw [Option.map_some, Node.detachFrom, if_neg hparent]

/-- A sweep removes exactly what lies below the pending nodes. -/
theorem mem_sweep (hg : g.IsForest) (pending : List NodeId) {x : NodeId} :
    x ∈ (g.sweep pending).1 ↔ g.Below pending x := by
  fun_induction sweep g pending with
  | case1 g => simp [Below]
  | case2 g id pending swept ih =>
    rw [List.mem_cons, ih (hg.remove id)]
    by_cases hx : x = id
    · exact iff_of_true (Or.inl hx)
        ⟨id, List.mem_cons_self .., hx ▸ Relation.ReflTransGen.refl⟩
    · rw [below_step hg hx, or_iff_right hx]

/-- A sweep removes no node twice: the removed node is gone, and it is not pending again. -/
theorem nodup_sweep (hg : g.IsForest) {pending : List NodeId} (h : g.IsPending pending) :
    (g.sweep pending).1.Nodup := by
  fun_induction sweep g pending with
  | case1 g => exact List.nodup_nil
  | case2 g id pending swept ih =>
    have hstep := h.step hg
    refine List.nodup_cons.2 ⟨fun hmem => ?_, ih (hg.remove id) hstep⟩
    obtain ⟨top, htop, hup⟩ := (mem_sweep (hg.remove id) _).1 hmem
    have hroot : (g.remove id).parent? id = none := by rw [parent?_remove, if_pos rfl]
    rw [descends_of_root hroot hup] at htop
    exact ((contains_remove id id).1 (hstep.contained id htop)).1 rfl

/-- The order of the pending nodes is of no account. -/
theorem sweep_perm (hg : g.IsForest) {pending pending' : List NodeId} (h : g.IsPending pending)
    (hperm : pending.Perm pending') :
    (g.sweep pending).1.Perm (g.sweep pending').1 ∧ (g.sweep pending).2 = (g.sweep pending').2 := by
  have h' := h.perm hperm
  constructor
  · refine (List.perm_ext_iff_of_nodup (nodup_sweep hg h) (nodup_sweep hg h')).2 fun x => ?_
    rw [mem_sweep hg, mem_sweep hg, below_congr hperm]
  · refine (hg.sweep pending).eq_of_find? (hg.sweep pending') (fun x => ?_) (by simp)
    by_cases hx : g.Below pending x
    · rw [find?_sweep_of_below hg h hx, find?_sweep_of_below hg h' ((below_congr hperm x).1 hx)]
    · rw [find?_sweep_of_not_below hg h hx,
        find?_sweep_of_not_below hg h' (mt (below_congr hperm x).2 hx)]

/-! ## The deletion of one node -/

/-- The derivation without a node and everything below it. -/
def withoutSubtree (g : Derivation) (id : NodeId) : Derivation :=
  ((g.setParent id none).sweep [id]).2

theorem isPending_setParent {id : NodeId} (hid : g.contains id = true) :
    (g.setParent id none).IsPending [id] := by
  refine ⟨List.nodup_singleton id, fun x hx => ?_, fun x hx => ?_⟩
  · rw [contains_setParent, List.mem_singleton.1 hx, hid]
  · rw [parent?_setParent hid, if_pos (List.mem_singleton.1 hx)]

theorem below_setParent {id : NodeId} (hid : g.contains id = true) (x : NodeId) :
    (g.setParent id none).Below [id] x ↔ g.Descends x id := by
  have hparent : ∀ {y p : NodeId}, (g.setParent id none).parent? y = some p ↔
      y ≠ id ∧ g.parent? y = some p := by
    intro y p
    rw [parent?_setParent hid]
    split
    · rename_i hy
      simp [hy]
    · rename_i hy
      simp [hy]
  constructor
  · rintro ⟨top, htop, hup⟩
    obtain rfl := List.mem_singleton.1 htop
    exact Relation.ReflTransGen.mono (fun _ _ hstep => (hparent.1 hstep).2) _ _ hup
  · intro h
    refine ⟨id, List.mem_singleton_self id, ?_⟩
    induction h using Relation.ReflTransGen.head_induction_on with
    | refl => exact Relation.ReflTransGen.refl
    | @head y p hstep _ ih =>
      by_cases hy : y = id
      · exact hy ▸ Relation.ReflTransGen.refl
      · exact Relation.ReflTransGen.head (hparent.2 ⟨hy, hstep⟩) ih

theorem IsForest.setParent_none (hg : g.IsForest) {id : NodeId} (hid : g.contains id = true) :
    (g.setParent id none).IsForest :=
  hg.setParent hid fun p hp => absurd hp (by simp)

theorem IsForest.withoutSubtree (hg : g.IsForest) {id : NodeId} (hid : g.contains id = true) :
    (g.withoutSubtree id).IsForest :=
  (hg.setParent_none hid).sweep [id]

@[simp] theorem next_withoutSubtree (id : NodeId) : (g.withoutSubtree id).next = g.next :=
  next_sweep [id]

section

variable (hg : g.IsForest) {id : NodeId} (hid : g.contains id = true) {x : NodeId}

include hg hid

theorem find?_withoutSubtree_of_descends (hx : g.Descends x id) :
    (g.withoutSubtree id).find? x = none :=
  find?_sweep_of_below (hg.setParent_none hid) (isPending_setParent hid)
    ((below_setParent hid x).2 hx)

theorem find?_withoutSubtree (hx : ¬ g.Descends x id) :
    (g.withoutSubtree id).find? x = g.find? x := by
  rw [withoutSubtree, find?_sweep_of_not_below (hg.setParent_none hid) (isPending_setParent hid)
    fun hbelow => hx ((below_setParent hid x).1 hbelow), find?_setParent]
  have hne : x ≠ id := by
    rintro rfl
    exact hx Relation.ReflTransGen.refl
  cases hn : g.find? x with
  | none => rfl
  | some n =>
    obtain rfl := (mem_of_find? hn).2
    rw [Option.map_some, if_neg hne]

theorem contains_withoutSubtree :
    (g.withoutSubtree id).contains x = true ↔ g.contains x = true ∧ ¬ g.Descends x id := by
  by_cases hx : g.Descends x id
  · rw [contains, find?_withoutSubtree_of_descends hg hid hx]
    simp [hx]
  · rw [contains, find?_withoutSubtree hg hid hx, contains]
    simp [hx]

theorem parent?_withoutSubtree {parent : NodeId} :
    (g.withoutSubtree id).parent? x = some parent ↔
      g.parent? x = some parent ∧ ¬ g.Descends x id := by
  by_cases hx : g.Descends x id
  · rw [parent?, find?_withoutSubtree_of_descends hg hid hx]
    simp [hx]
  · rw [parent?, find?_withoutSubtree hg hid hx, parent?]
    simp [hx]

theorem isPlaceholder_withoutSubtree :
    (g.withoutSubtree id).isPlaceholder x = true ↔
      g.isPlaceholder x = true ∧ ¬ g.Descends x id := by
  by_cases hx : g.Descends x id
  · rw [isPlaceholder, find?_withoutSubtree_of_descends hg hid hx]
    simp [hx]
  · rw [isPlaceholder, find?_withoutSubtree hg hid hx, ← isPlaceholder]
    simp [hx]

end

end Derivation

end GrammarTree
