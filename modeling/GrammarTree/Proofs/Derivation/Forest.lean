import GrammarTree.Proofs.Derivation.Lookup
import Mathlib.Logic.Relation

/-!
# Derivations are forests

A derivation stores one parent for each node and nothing else, so nothing in its type keeps a node
from being its own ancestor or from having a parent that does not exist. This file says what it
means that a derivation is a forest, and which changes keep it one.

The way up from a node is a relation here, the reflexive and transitive closure of hanging from a
parent, and that it ends is an inductive predicate. The program computes the way up as a list, and
takes each node out of the table as it passes it, so that the computation ends on every table. In a
forest no node is passed twice, and the list is the whole way up (`IsForest.mem_lineage_iff`). This
is what makes the test for cycles, which looks a node up in that list, the right one.

What is here:

* `Derivation.Descends`, the relation between a node and the nodes on its way up, and
  `Derivation.Rooted`, which says that the way up ends;
* `Derivation.Rooted.lineage_eq_cons` and `Derivation.Rooted.nodup_lineage`, the computed way up,
  node by node and without repetition;
* `Derivation.IsForest`, the invariant of derivations, with one lemma for each change that keeps it;
* `Derivation.IsForest.mem_lineage_iff`: in a forest the lineage of a node is its whole way up;
* `Derivation.IsForest.eq_of_find?`: a forest is determined by its look-ups.

Which edits make these changes, and that they make no others, is not decided here.
-/

set_option autoImplicit false

namespace GrammarTree

namespace Derivation

variable {g : Derivation}

/-! ## The way up

The computation of the way up works on a shrinking list of nodes, and the lemmas that lead to its
closed form are about such lists: what has been passed may be missing, as long as what lies ahead is
still there (`HasWayUp`). -/

/-- Whether one node hangs from another. -/
def HangsFrom (g : Derivation) (child parent : NodeId) : Prop := g.parent? child = some parent

/-- Whether the way up from a node passes through another one; it starts at the node itself. -/
def Descends (g : Derivation) : NodeId → NodeId → Prop := Relation.ReflTransGen g.HangsFrom

/-- The way up from a node ends at a root. -/
inductive Rooted (g : Derivation) : NodeId → Prop
  | root {id : NodeId} (h : g.parent? id = none) : Rooted g id
  | step {id parent : NodeId} (h : g.parent? id = some parent) (up : Rooted g parent) : Rooted g id

theorem descends_of_root {id top : NodeId} (hid : g.parent? id = none) (h : g.Descends id top) :
    top = id := by
  rcases Relation.ReflTransGen.cases_head h with rfl | ⟨parent, hparent, -⟩
  · rfl
  · rw [HangsFrom, hid] at hparent
    cases hparent

theorem descends_iff {id parent top : NodeId} (hid : g.parent? id = some parent) :
    g.Descends id top ↔ id = top ∨ g.Descends parent top := by
  constructor
  · intro h
    rcases Relation.ReflTransGen.cases_head h with rfl | ⟨next, hnext, hup⟩
    · exact Or.inl rfl
    · rw [HangsFrom, hid] at hnext
      cases hnext
      exact Or.inr hup
  · rintro (rfl | h)
    · exact Relation.ReflTransGen.refl
    · exact Relation.ReflTransGen.head hid h

/-- A node whose way up ends does not come back to itself on it. -/
theorem Rooted.not_descends {id : NodeId} (h : g.Rooted id) {parent : NodeId}
    (hparent : g.parent? id = some parent) : ¬ g.Descends parent id := by
  induction h generalizing parent with
  | root hid =>
    rw [hid] at hparent
    cases hparent
  | @step id p hid _ ih =>
    rw [hid] at hparent
    cases hparent
    -- A way from `p` back to `id` starts with a parent of `p`, from where it goes on to `p`.
    intro hback
    rcases Relation.ReflTransGen.cases_head hback with rfl | ⟨q, hq, hup⟩
    · exact ih hid Relation.ReflTransGen.refl
    · exact ih hq (Relation.ReflTransGen.tail hup hid)

theorem Rooted.mono {g' : Derivation}
    (hsub : ∀ {id parent : NodeId}, g'.parent? id = some parent → g.parent? id = some parent)
    {id : NodeId} (h : g.Rooted id) : g'.Rooted id := by
  induction h with
  | root hid =>
    refine Rooted.root (Option.eq_none_iff_forall_ne_some.2 fun parent hparent => ?_)
    rw [hsub hparent] at hid
    cases hid
  | @step id parent hid _ ih =>
    cases hid' : g'.parent? id with
    | none => exact Rooted.root hid'
    | some p =>
      have hp := hsub hid'
      rw [hid] at hp
      cases hp
      exact Rooted.step hid' ih

theorem lineageAmong_eq (nodes : List Node) (id : NodeId) :
    lineageAmong nodes id =
      match (nodes.find? fun n => n.id = id).bind Node.parent with
      | none => [id]
      | some parent => id :: lineageAmong (nodesWithout id nodes) parent := by
  rw [lineageAmong]
  split
  · rename_i hnone
    rw [hnone, Option.bind_none]
  · rename_i n hn
    have hparent : (nodes.find? fun n => n.id = id).bind Node.parent = n.parent := by
      rw [hn, Option.bind_some]
    cases h : n.parent with
    | none => rw [hparent, h]
    | some parent => rw [hparent, h]

/-- Whether all nodes on the way up from a node are among some nodes. -/
def HasWayUp (g : Derivation) (nodes : List Node) (id : NodeId) : Prop :=
  ∀ x, g.Descends id x → (nodes.find? fun n => n.id = x) = g.find? x

/-- A node is not on the way up from its parent, which therefore stays when the node is taken
out. -/
theorem HasWayUp.nodesWithout {nodes : List Node} {id parent : NodeId}
    (h : g.HasWayUp nodes id) (hid : g.parent? id = some parent) (hup : g.Rooted parent) :
    g.HasWayUp (nodesWithout id nodes) parent := by
  intro x hx
  have hne : x ≠ id := by
    rintro rfl
    exact (Rooted.step hid hup).not_descends hid hx
  rw [find?_nodesWithout hne, h x (Relation.ReflTransGen.head hid hx)]

theorem hasWayUp_nodes (id : NodeId) : g.HasWayUp g.nodes id := fun _ _ => rfl

/-- The lineage of a node is the same among some of the nodes, if its way up is there. -/
theorem lineageAmong_eq_lineage {id : NodeId} (h : g.Rooted id) :
    ∀ {nodes : List Node}, g.HasWayUp nodes id → lineageAmong nodes id = g.lineage id := by
  induction h with
  | @root id hid =>
    intro nodes hnodes
    rw [lineage, lineageAmong_eq, lineageAmong_eq g.nodes, hnodes id Relation.ReflTransGen.refl,
      ← find?, ← parent?, hid]
  | @step id parent hid hup ih =>
    intro nodes hnodes
    rw [lineage, lineageAmong_eq, lineageAmong_eq g.nodes, hnodes id Relation.ReflTransGen.refl,
      ← find?, ← parent?, hid]
    have hleft := ih (hnodes.nodesWithout hid hup)
    have hright := ih ((hasWayUp_nodes id).nodesWithout hid hup)
    exact congrArg (List.cons id) (hleft.trans hright.symm)

theorem lineage_of_root {id : NodeId} (h : g.parent? id = none) : g.lineage id = [id] := by
  rw [lineage, lineageAmong_eq, ← find?, ← parent?, h]

/-- The lineage of a node goes on with the lineage of its parent. -/
theorem Rooted.lineage_eq_cons {id parent : NodeId} (hup : g.Rooted parent)
    (h : g.parent? id = some parent) : g.lineage id = id :: g.lineage parent := by
  rw [lineage, lineageAmong_eq, ← find?, ← parent?, h]
  exact congrArg (List.cons id)
    (lineageAmong_eq_lineage hup ((hasWayUp_nodes id).nodesWithout h hup))

/-- The lineage of a node is its way up. -/
theorem Rooted.mem_lineage_iff {id : NodeId} (h : g.Rooted id) {x : NodeId} :
    x ∈ g.lineage id ↔ g.Descends id x := by
  induction h with
  | @root id hid =>
    rw [lineage_of_root hid, List.mem_singleton]
    exact ⟨fun hx => hx ▸ Relation.ReflTransGen.refl, descends_of_root hid⟩
  | @step id parent hid hup ih =>
    rw [hup.lineage_eq_cons hid, List.mem_cons, descends_iff hid, eq_comm, ih]

theorem Rooted.nodup_lineage {id : NodeId} (h : g.Rooted id) : (g.lineage id).Nodup := by
  induction h with
  | root hid =>
    rw [lineage_of_root hid]
    exact List.nodup_singleton _
  | step hid hup ih =>
    rw [hup.lineage_eq_cons hid]
    exact List.nodup_cons.2 ⟨mt hup.mem_lineage_iff.1 ((Rooted.step hid hup).not_descends hid), ih⟩

/-! ## Forests -/

/-- A derivation is a forest over its nodes. -/
structure IsForest (g : Derivation) : Prop where
  /-- The numbers of the nodes ascend, so that none is used twice. -/
  ascending : g.ids.Pairwise (· < ·)
  /-- The numbers of the nodes start at 0 and have been handed out. -/
  bounded : ∀ id : Int, g.contains id = true → 0 ≤ id ∧ id < g.next
  /-- Both ends of a link are nodes. -/
  linked : ∀ link ∈ g.links, g.contains link.1 = true ∧ g.contains link.2 = true
  /-- The way up from every node ends, so that there is no cycle. -/
  rooted : ∀ id : NodeId, g.Rooted id

theorem nodup_of_ascending (h : g.ids.Pairwise (· < ·)) : g.ids.Nodup :=
  h.imp fun hlt => Int.ne_of_lt hlt

theorem isForest_of_parents (ascending : g.ids.Pairwise (· < ·))
    (bounded : ∀ id : Int, g.contains id = true → 0 ≤ id ∧ id < g.next)
    (parents : ∀ {id parent : NodeId}, g.parent? id = some parent → g.contains parent = true)
    (rooted : ∀ id : NodeId, g.Rooted id) : g.IsForest where
  ascending := ascending
  bounded := bounded
  linked := by
    rintro ⟨parent, child⟩ hlink
    have hparent := (mem_links (nodup_of_ascending ascending)).1 hlink
    exact ⟨parents hparent, contains_of_parent? hparent⟩
  rooted := rooted

theorem isForest_empty : empty.IsForest :=
  isForest_of_parents List.Pairwise.nil (fun _ h => absurd h (by simp [contains, find?, empty]))
    (fun h => absurd h (by simp [parent?, find?, empty])) (fun _ => Rooted.root rfl)

namespace IsForest

theorem nodup (hg : g.IsForest) : g.ids.Nodup := nodup_of_ascending hg.ascending

theorem contains_parent (hg : g.IsForest) {id parent : NodeId} (h : g.parent? id = some parent) :
    g.contains parent = true :=
  (hg.linked _ ((mem_links hg.nodup).2 h)).1

theorem contains_of_descends (hg : g.IsForest) {id top : NodeId} (h : g.Descends id top)
    (hid : g.contains id = true) : g.contains top = true := by
  induction h with
  | refl => exact hid
  | tail _ hparent _ => exact hg.contains_parent hparent

theorem contains_next (hg : g.IsForest) : g.contains g.next = false := by
  by_contra h
  rw [Bool.not_eq_false] at h
  exact absurd (hg.bounded _ h).2 (Int.lt_irrefl _)

theorem not_descends (hg : g.IsForest) {id parent : NodeId} (h : g.parent? id = some parent) :
    ¬ g.Descends parent id :=
  (hg.rooted id).not_descends h

theorem mem_lineage_iff (hg : g.IsForest) {id x : NodeId} : x ∈ g.lineage id ↔ g.Descends id x :=
  (hg.rooted id).mem_lineage_iff

/-- A way up holds every node at most once. -/
theorem length_lineage_le (hg : g.IsForest) {id : NodeId} (hid : g.contains id = true) :
    (g.lineage id).length ≤ g.ids.length := by
  refine (hg.rooted id).nodup_lineage.length_le_of_subset fun x hx => ?_
  exact mem_ids.2 (hg.contains_of_descends (hg.mem_lineage_iff.1 hx) hid)

theorem pairwise_nodes (hg : g.IsForest) : g.nodes.Pairwise fun m n => m.id < n.id :=
  List.pairwise_map.1 hg.ascending

/-- The nodes of a forest stand in the order of their numbers, so that they are determined by what
is found under each number. -/
theorem eq_of_find? {g' : Derivation} (hg : g.IsForest) (hg' : g'.IsForest)
    (hfind : ∀ x, g.find? x = g'.find? x) (hnext : g.next = g'.next) : g = g' := by
  have hsub : ∀ {g g' : Derivation}, g.IsForest → (∀ x, g.find? x = g'.find? x) →
      ∀ n ∈ g.nodes, n ∈ g'.nodes := by
    intro g g' hg hfind n hn
    exact (mem_of_find? ((hfind n.id).symm.trans (find?_id hg.nodup hn))).1
  have hperm : g.nodes.Perm g'.nodes :=
    (List.perm_ext_iff_of_nodup hg.nodup.of_map hg'.nodup.of_map).2 fun n =>
      ⟨hsub hg hfind n, hsub hg' (fun x => (hfind x).symm) n⟩
  have hnodes : g.nodes = g'.nodes :=
    hperm.eq_of_pairwise (fun m n _ _ hlt hgt => absurd hlt (Int.lt_asymm hgt))
      hg.pairwise_nodes hg'.pairwise_nodes
  cases g
  cases g'
  cases hnodes
  cases hnext
  rfl

end IsForest

/-! ### Changes that keep a forest

Only one of the changes can close a cycle. A node may be given any parent that does not descend from
it, and then every way up still ends: it either avoids the node or goes on from its new parent,
which it cannot come back to. -/

/-- A node may get any parent that does not descend from it: every way up still ends. -/
theorem rooted_of_redirect {g' : Derivation} {id : NodeId} {parent : Option NodeId}
    (hparent : ∀ x, g'.parent? x = if x = id then parent else g.parent? x)
    (hrooted : ∀ x, g.Rooted x) (hfree : ∀ p ∈ parent, ¬ g.Descends p id) (x : NodeId) :
    g'.Rooted x := by
  -- A way up that avoids the node is the same as before.
  have havoid : ∀ y, g.Rooted y → ¬ g.Descends y id → g'.Rooted y := by
    intro y hy
    induction hy with
    | @root y hroot =>
      intro hdescends
      have hne : y ≠ id := by
        rintro rfl
        exact hdescends Relation.ReflTransGen.refl
      exact Rooted.root (by rw [hparent, if_neg hne, hroot])
    | @step y p hstep _ ih =>
      intro hdescends
      have hne : y ≠ id := by
        rintro rfl
        exact hdescends Relation.ReflTransGen.refl
      exact Rooted.step (by rw [hparent, if_neg hne, hstep])
        (ih fun hup => hdescends (Relation.ReflTransGen.head hstep hup))
  have hid : g'.Rooted id := by
    cases hp : parent with
    | none => exact Rooted.root (by rw [hparent, if_pos rfl, hp])
    | some p =>
      exact Rooted.step (by rw [hparent, if_pos rfl, hp]) (havoid p (hrooted p) (hfree p hp))
  induction hrooted x with
  | @root y hroot =>
    by_cases hy : y = id
    · rwa [hy]
    · exact Rooted.root (by rw [hparent, if_neg hy, hroot])
  | @step y p hstep _ ih =>
    by_cases hy : y = id
    · rwa [hy]
    · exact Rooted.step (by rw [hparent, if_neg hy, hstep]) ih

namespace IsForest

theorem setParent (hg : g.IsForest) {id : NodeId} (hid : g.contains id = true)
    {parent : Option NodeId} (hparent : ∀ p ∈ parent, g.contains p = true ∧ ¬ g.Descends p id) :
    (g.setParent id parent).IsForest := by
  refine isForest_of_parents ?_ ?_ ?_
    (rooted_of_redirect (parent?_setParent hid parent) hg.rooted fun p hp => (hparent p hp).2)
  · rw [ids_setParent]
    exact hg.ascending
  · intro x hx
    rw [contains_setParent] at hx
    exact hg.bounded x hx
  · intro x p hx
    rw [parent?_setParent hid] at hx
    rw [contains_setParent]
    split at hx
    · exact (hparent p hx).1
    · exact hg.contains_parent hx

theorem parent?_growAt (hg : g.IsForest) (parent : Option NodeId) (label : Text) (x : NodeId) :
    (g.growAt parent label).parent? x = if x = g.next then parent else g.parent? x := by
  have hnext := hg.contains_next
  rw [contains, Option.isSome_eq_false_iff, Option.isNone_iff_eq_none] at hnext
  rw [parent?, find?_growAt, parent?]
  by_cases hx : x = g.next
  · rw [hx, hnext, Option.none_or, if_pos rfl, if_pos rfl, Option.bind_some]
  · rw [if_neg (Ne.symm hx), Option.or_none, if_neg hx]

theorem label?_growAt (hg : g.IsForest) (parent : Option NodeId) (label : Text) (x : NodeId) :
    (g.growAt parent label).label? x = if x = g.next then some label else g.label? x := by
  have hnext := hg.contains_next
  rw [contains, Option.isSome_eq_false_iff, Option.isNone_iff_eq_none] at hnext
  rw [label?, find?_growAt, label?]
  by_cases hx : x = g.next
  · rw [hx, hnext, Option.none_or, if_pos rfl, if_pos rfl, Option.map_some]
  · rw [if_neg (Ne.symm hx), Option.or_none, if_neg hx]

theorem contains_growAt (hg : g.IsForest) (parent : Option NodeId) (label : Text) (x : NodeId) :
    (g.growAt parent label).contains x = true ↔ x = g.next ∨ g.contains x = true := by
  rw [contains_eq_isSome_label?, hg.label?_growAt, contains_eq_isSome_label?]
  by_cases hx : x = g.next
  · simp [hx]
  · simp [hx]

theorem growAt (hg : g.IsForest) {parent : Option NodeId}
    (hparent : ∀ p ∈ parent, g.contains p = true) (label : Text) :
    (g.growAt parent label).IsForest := by
  refine isForest_of_parents ?_ ?_ ?_
    (rooted_of_redirect (hg.parent?_growAt parent label) hg.rooted fun p hp hdescends => ?_)
  · rw [ids_growAt]
    refine List.pairwise_append.2 ⟨hg.ascending, List.pairwise_singleton _ _, ?_⟩
    intro x hx y hy
    rw [List.mem_singleton.1 hy]
    exact (hg.bounded x (mem_ids.1 hx)).2
  · intro x hx
    have hnext := next_growAt (g := g) parent label
    rcases (hg.contains_growAt parent label x).1 hx with rfl | hx
    · omega
    · have hx := hg.bounded x hx
      omega
  · intro x p hx
    rw [hg.parent?_growAt] at hx
    rw [hg.contains_growAt]
    split at hx
    · exact Or.inr (hparent p hx)
    · exact Or.inr (hg.contains_parent hx)
  · have hnext := hg.contains_of_descends hdescends (hparent p hp)
    rw [hg.contains_next] at hnext
    exact absurd hnext Bool.false_ne_true

theorem remove (hg : g.IsForest) (id : NodeId) : (g.remove id).IsForest := by
  refine isForest_of_parents ?_ ?_ ?_ fun x => (hg.rooted x).mono ?_
  · rw [ids_remove]
    exact hg.ascending.filter _
  · intro x hx
    exact hg.bounded x ((contains_remove id x).1 hx).2
  · intro x p hx
    obtain ⟨-, hp, hparent⟩ := parent?_remove_eq_some_iff.1 hx
    exact (contains_remove id p).2 ⟨hp, hg.contains_parent hparent⟩
  · intro x p hx
    exact (parent?_remove_eq_some_iff.1 hx).2.2

end IsForest

end Derivation

end GrammarTree
