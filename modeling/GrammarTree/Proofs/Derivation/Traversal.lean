import GrammarTree.Proofs.Derivation.History

/-!
# Loops through a derivation

Two edits walk through a derivation. A link goes up from the new parent and looks for the child, and
a deletion goes down from the deleted node. `lineage` and `sweep` do this in a way that ends on
every derivation and finds every node that it looks up. The plain loops have no such guard: the walk
up goes from parent to parent and remembers nothing, and a deletion takes entries out of two tables,
the labels and the parents, which do not agree with each other in the middle of a turn. This file
states the plain loops and proves that the derivations that some actions lead to need no guard.

A loop that may not end is stated with a number of turns, and has no result when the turns are used
up. A look-up that may fail gives no result either. So the theorem that there is a result says all
three at once: the loop ends, within as many turns as there are nodes, and finds what it looks up.

The walk up visits the nodes of the lineage as far as the child, which is an induction along the way
up. The deletion takes more. The loop puts the children of a deleted node in front of its pending
nodes in reverse order, where `sweep` keeps their order, so that the nodes are deleted in another
order. The two are compared turn by turn through the derivation whose tables are left: the pending
nodes are the same up to their order, and since that order is of no account for a sweep, the same
nodes are gone in the end.

What is here:

* `Derivation.climb?`, the walk up, with `Derivation.Rooted.climb?_eq`: it visits the lineage;
* `Table.delete?`, which fails where there is nothing to delete, and `Tables.clear?`, the loop of a
  deletion in two tables;
* `Derivation.clear?_tables`: on a forest this loop never fails, and it does what a sweep does;
* `Derivation.loops_visit_once`, both loops together.

Two examples at the end have no such result: a derivation that is no forest keeps the walk going,
and one in which two nodes have the same number makes a look-up of the deletion fail.
-/

set_option autoImplicit false

namespace GrammarTree

/-! ## The walk up -/

namespace Derivation

variable {g : Derivation}

/-- The walk up from a node in search of `child`: the nodes that it visits, and whether it finds the
child. It goes on as long as it has not found the child and there is a parent. If it has not ended
after some number of turns, there is no answer. -/
def climb? (g : Derivation) (child : NodeId) : Nat → Option NodeId → Option (List NodeId × Bool)
  | _, none => some ([], false)
  | 0, some _ => none
  | turns + 1, some id =>
    if id = child then some ([id], true)
    else (g.climb? child turns (g.parent? id)).map fun r => (id :: r.1, r.2)

/-- Where the way up ends, the walk visits the lineage as far as the child. -/
theorem Rooted.climb?_eq {id : NodeId} (h : g.Rooted id) (child : NodeId) :
    ∀ {turns : Nat}, (g.lineage id).length ≤ turns →
      g.climb? child turns (some id) =
        some ((g.lineage id).take ((g.lineage id).idxOf child + 1),
          decide (child ∈ g.lineage id)) := by
  induction h with
  | @root id hid =>
    intro turns hturns
    rw [lineage_of_root hid] at hturns ⊢
    obtain ⟨turns, rfl⟩ := Nat.exists_eq_add_of_le' hturns
    rw [List.length_singleton, climb?, hid, climb?]
    by_cases hfound : id = child
    · simp [hfound]
    · simp [hfound, Ne.symm hfound]
  | @step id parent hid hup ih =>
    intro turns hturns
    rw [hup.lineage_eq_cons hid] at hturns ⊢
    obtain ⟨turns, rfl⟩ := Nat.exists_eq_add_of_le' hturns
    rw [List.length_cons, ← Nat.add_assoc, climb?, hid, ih (Nat.le_add_left ..)]
    by_cases hfound : id = child
    · simp [hfound]
    · simp [hfound, Ne.symm hfound, List.idxOf_cons_ne _ hfound]

end Derivation

/-! ## Tables

A table may hold several entries for a number. Deleting a number takes all of them, so that deleting
it once more fails; this is why the numbers that are deleted one after the other have to be
different. -/

/-- A table with an entry for some of the node numbers. -/
abbrev Table (β : Type) := List (NodeId × β)

namespace Table

variable {β : Type} {table table' : Table β}

/-- The numbers that have an entry. -/
def keys (table : Table β) : List NodeId := table.map Prod.fst

/-- Deletes the entry of a number. Fails if there is none. -/
def delete? (key : NodeId) (table : Table β) : Option (Table β) :=
  if key ∈ table.keys then some (table.filter fun entry => entry.1 ≠ key) else none

/-- Deletes the entries of some numbers one after the other. -/
def deleteAll? : List NodeId → Table β → Option (Table β)
  | [], table => some table
  | key :: keys, table => (table.delete? key).bind (deleteAll? keys)

theorem length_of_delete? {key : NodeId} (h : table.delete? key = some table') :
    table'.length < table.length := by
  rw [delete?] at h
  split at h
  · rename_i hkey
    cases h
    obtain ⟨entry, hentry, rfl⟩ := List.mem_map.1 hkey
    exact List.length_filter_lt_length_iff_exists.2 ⟨entry, hentry, by simp⟩
  · cases h

theorem length_of_deleteAll? {keys : List NodeId} (h : table.deleteAll? keys = some table') :
    table'.length + keys.length ≤ table.length := by
  induction keys generalizing table with
  | nil =>
    cases h
    exact Nat.le_refl _
  | cons key keys ih =>
    obtain ⟨rest, hrest, hkeys⟩ := Option.bind_eq_some_iff.1 h
    have hlt := length_of_delete? hrest
    have hle := ih hkeys
    rw [List.length_cons]
    omega

/-- Different numbers that all have an entry can be deleted one after the other. -/
theorem deleteAll?_eq {keys : List NodeId} (hkeys : keys.Nodup)
    (hsub : ∀ key ∈ keys, key ∈ table.keys) :
    table.deleteAll? keys = some (table.filter fun entry => entry.1 ∉ keys) := by
  induction keys generalizing table with
  | nil => simp [deleteAll?]
  | cons key keys ih =>
    obtain ⟨hkey, hnodup⟩ := List.nodup_cons.1 hkeys
    have hrest : ∀ other ∈ keys, other ∈ Table.keys (table.filter fun entry => entry.1 ≠ key) := by
      intro other hother
      obtain ⟨entry, hentry, rfl⟩ := List.mem_map.1 (hsub other (List.mem_cons_of_mem _ hother))
      refine List.mem_map_of_mem (List.mem_filter.2 ⟨hentry, decide_eq_true ?_⟩)
      rintro rfl
      exact hkey hother
    rw [deleteAll?, delete?, if_pos (hsub key (List.mem_cons_self ..)), Option.bind_some,
      ih hnodup hrest, List.filter_filter]
    congr 1
    refine List.filter_congr fun entry _ => ?_
    simp [Bool.and_comm]

end Table

/-! ## The loop of a deletion

In the middle of a turn the label of a node is gone while its children still name it as their
parent. The tables are those of a derivation only between two turns, and the lemmas below speak of
whole turns. -/

/-- The labels and the parents of some nodes in two tables. -/
structure Tables where
  /-- The label of each node. -/
  labels : Table Text
  /-- The parent of each node that has one. -/
  parents : Table NodeId
  deriving DecidableEq, Repr

namespace Tables

/-- The nodes that have some node as their parent. -/
def children (t : Tables) (id : NodeId) : List NodeId :=
  Table.keys (t.parents.filter fun entry => entry.2 = id)

/-- Deletes the label of a node and then the parents of its children, entry by entry, and returns
these children. -/
def deleteNode? (t : Tables) (id : NodeId) : Option (List NodeId × Tables) := do
  let labels ← t.labels.delete? id
  let parents ← t.parents.deleteAll? (t.children id)
  return (t.children id, ⟨labels, parents⟩)

theorem length_of_deleteNode? {t t' : Tables} {id : NodeId} {children : List NodeId}
    (h : t.deleteNode? id = some (children, t')) :
    t'.parents.length + children.length ≤ t.parents.length := by
  obtain ⟨labels, -, h⟩ := Option.bind_eq_some_iff.1 h
  obtain ⟨parents, hparents, h⟩ := Option.bind_eq_some_iff.1 h
  cases h
  exact Table.length_of_deleteAll? hparents

/-- Deletes the pending nodes and everything below them. The node that became pending last is the
first to be deleted, so that children come before the nodes that were pending, the last child first.
Returns the deleted nodes in order, and what is left. Fails if a node is to be deleted without a
label, or without a parent where it should have one. -/
def clear? (t : Tables) : List NodeId → Option (List NodeId × Tables)
  | [] => some ([], t)
  | id :: pending =>
    match _h : t.deleteNode? id with
    | none => none
    | some (children, rest) =>
      (rest.clear? (children.reverse ++ pending)).map fun r => (id :: r.1, r.2)
termination_by pending => t.parents.length + pending.length
decreasing_by
  have hle := length_of_deleteNode? _h
  simp only [List.length_append, List.length_reverse, List.length_cons]
  omega

end Tables

namespace Derivation

variable {g : Derivation} {id : NodeId}

/-- The labels and the parents of a derivation. -/
def tables (g : Derivation) : Tables where
  labels := g.nodes.map fun n => (n.id, n.label)
  parents := g.nodes.filterMap fun n => n.parent.map fun parent => (n.id, parent)

theorem keys_labels (g : Derivation) : g.tables.labels.keys = g.ids := by
  rw [Table.keys, tables, List.map_map, ids]
  rfl

theorem children_tables (g : Derivation) (id : NodeId) : g.tables.children id = g.children id := by
  rw [Tables.children, Table.keys, tables, children]
  induction g.nodes with
  | nil => rfl
  | cons n nodes ih =>
    cases hparent : n.parent with
    | none => simp [hparent, ih]
    | some parent =>
      by_cases hid : parent = id
      · simp [hparent, hid, ih]
      · simp [hparent, hid, ih]

theorem children_subset_keys_parents (g : Derivation) (id : NodeId) :
    g.children id ⊆ g.tables.parents.keys := by
  rw [← children_tables]
  exact (List.filter_sublist.map Prod.fst).subset

theorem delete?_labels (hid : g.contains id = true) :
    g.tables.labels.delete? id = some (g.remove id).tables.labels := by
  rw [Table.delete?, keys_labels, if_pos (mem_ids.2 hid)]
  simp only [tables, remove, nodesWithout, List.map_map, List.filter_map]
  congr 1
  refine List.map_congr_left fun n _ => ?_
  simp only [Function.comp_apply, Node.detachFrom]
  split <;> rfl

/-- When a root is removed, its children lose their parents, and nobody else does. -/
theorem parents_remove (hids : g.ids.Nodup) (hroot : g.parent? id = none) :
    (g.remove id).tables.parents =
      g.tables.parents.filter fun entry => entry.1 ∉ g.children id := by
  simp only [tables, remove, nodesWithout, List.filterMap_map, List.filterMap_filter,
    List.filter_filterMap]
  refine List.filterMap_congr fun n hn => ?_
  have hchild : n.id ∈ g.children id ↔ n.parent = some id := by
    rw [mem_children hids, parent?_id hids hn]
  rw [Function.comp_apply, Node.detachFrom]
  by_cases hid : n.id = id
  · have hparent : n.parent = none := by rw [← parent?_id hids hn, hid, hroot]
    simp [hid, hparent]
  · cases hparent : n.parent with
    | none => simp [hid, hparent]
    | some parent =>
      rw [hparent, Option.some.injEq] at hchild
      by_cases hp : parent = id
      · simp [hid, hp, hchild, Option.filter_some]
      · simp [hid, hparent, hp, hchild, Option.filter_some]

/-- A turn of the loop finds every entry that it deletes: a pending node has its label, and its
children have their parent. -/
theorem IsPending.deleteNode?_tables (hg : g.IsForest) {pending : List NodeId}
    (h : g.IsPending (id :: pending)) :
    g.tables.deleteNode? id = some (g.children id, (g.remove id).tables) := by
  have hids := hg.nodup
  have hlabels := delete?_labels (h.contained id (List.mem_cons_self ..))
  have hparents : g.tables.parents.deleteAll? (g.children id) =
      some (g.remove id).tables.parents := by
    rw [parents_remove hids (h.root id (List.mem_cons_self ..))]
    exact Table.deleteAll?_eq (nodup_children hids id) (children_subset_keys_parents g id)
  rw [Tables.deleteNode?, hlabels, children_tables, hparents]
  rfl

/-- From the pending nodes of a forest, the loop deletes the nodes that a sweep removes and leaves
what the sweep leaves. Only the order of the nodes is another one. -/
theorem clear?_tables (hg : g.IsForest) {pending : List NodeId} (h : g.IsPending pending) :
    ∃ cleared, g.tables.clear? pending = some (cleared, (g.sweep pending).2.tables) ∧
      cleared.Perm (g.sweep pending).1 := by
  generalize ht : g.tables = t
  fun_induction Tables.clear? t pending generalizing g with
  | case1 t =>
    rw [sweep, ht]
    exact ⟨[], rfl, List.Perm.refl _⟩
  | case2 t id pending hfails =>
    have hturn := h.deleteNode?_tables hg
    rw [ht, hfails] at hturn
    cases hturn
  | case3 t id pending children rest hdone ih =>
    have hturn := h.deleteNode?_tables hg
    rw [ht, hdone] at hturn
    cases hturn
    have hstep := h.step hg
    have horder : (g.children id ++ pending).Perm ((g.children id).reverse ++ pending) :=
      (List.reverse_perm _).symm.append_right _
    obtain ⟨cleared, hcleared, hperm⟩ := ih (hg.remove id) (hstep.perm horder) rfl
    obtain ⟨hremoved, hleft⟩ := sweep_perm (hg.remove id) hstep horder
    refine ⟨id :: cleared, ?_, ?_⟩
    · rw [hcleared, Option.map_some, sweep, hleft]
    · rw [sweep]
      exact (hperm.trans hremoved.symm).cons id

/-! ## Both loops -/

/-- **Both loops go nowhere twice, and find what they look up.** The walk up of a link visits nodes
only, each at most once, and ends within as many turns as there are nodes; the link is refused
exactly when the walk finds the child. The loop of a deletion finds every label and every parent
that it deletes. It deletes each node of the subtree once, as a sweep does, and it leaves what the
deletion leaves. -/
theorem loops_visit_once (hg : g.Reachable) :
    (∀ parent child, g.contains parent = true → g.contains child = true →
      ∃ visited found,
        (∀ turns, g.ids.length ≤ turns →
          g.climb? child turns (some parent) = some (visited, found)) ∧
        visited.Nodup ∧ (∀ x ∈ visited, g.contains x = true) ∧ visited.length ≤ g.ids.length ∧
        link parent child g =
          if found then .error (.cyclicLink parent child) g
          else .ok () (g.setParent child (some parent))) ∧
    ∀ id, g.contains id = true →
      ∃ cleared g',
        (g.setParent id none).tables.clear? [id] = some (cleared, g'.tables) ∧
        cleared.Nodup ∧ (∀ x, x ∈ cleared ↔ g.Descends x id) ∧
        cleared.Perm ((g.setParent id none).sweep [id]).1 ∧
        delete id g = .ok (g.parent? id) g' := by
  have hforest := hg.isForest
  constructor
  · intro parent child hparent hchild
    have hrooted := hforest.rooted parent
    have hlength := hforest.length_lineage_le hparent
    have hfront := List.take_sublist ((g.lineage parent).idxOf child + 1) (g.lineage parent)
    refine ⟨_, _, fun turns hturns => hrooted.climb?_eq child (Nat.le_trans hlength hturns),
      hrooted.nodup_lineage.sublist hfront, fun x hx => ?_,
      Nat.le_trans hfront.length_le hlength, ?_⟩
    · exact hforest.contains_of_descends (hrooted.mem_lineage_iff.1 (hfront.subset hx)) hparent
    · simp only [link_eq, hparent, hchild, Bool.true_eq_false, if_false, decide_eq_true_eq]
  · intro id hid
    have hcut := hforest.setParent_none hid
    have hpending := isPending_setParent hid
    obtain ⟨cleared, hcleared, hperm⟩ := clear?_tables hcut hpending
    refine ⟨cleared, g.withoutSubtree id, hcleared,
      hperm.nodup_iff.2 (nodup_sweep hcut hpending), fun x => ?_, hperm, ?_⟩
    · rw [hperm.mem_iff, mem_sweep hcut, below_setParent hid]
    · rw [delete_eq, if_pos hid]

/-- From the grandchild the walk visits three nodes and finds the root. The root is deleted with its
two children and the grandchild, the second child before the first; a fifth node stays. -/
theorem loops_visit_once_of_two_children :
    let g := play [.newNode "a".toList, .newNode "b".toList, .newNode "c".toList,
      .newNode "d".toList, .newNode "e".toList, .link 0 1, .link 0 2, .link 1 3] empty
    g.Reachable ∧ g.contains 0 = true ∧ g.contains 3 = true ∧
      g.climb? 0 5 (some 3) = some ([3, 1, 0], true) ∧
      link 3 0 g = .error (.cyclicLink 3 0) g ∧
      ∃ g', (g.setParent 0 none).tables.clear? [0] = some ([0, 2, 1, 3], g'.tables) ∧
        delete 0 g = .ok none g' ∧ g'.contains 4 = true := by
  intro g
  have hg : g.Reachable := ⟨_, rfl⟩
  have hroot : g.contains 0 = true := by decide +kernel
  have hleaf : g.contains 3 = true := by decide +kernel
  obtain ⟨hwalk, hdeletion⟩ := loops_visit_once hg
  obtain ⟨visited, found, hends, -, -, -, hlink⟩ := hwalk 3 0 hleaf hroot
  obtain ⟨cleared, g', hcleared, -, -, -, hdelete⟩ := hdeletion 0 hroot
  have hclimb : g.climb? 0 5 (some 3) = some ([3, 1, 0], true) := by decide +kernel
  have hfound : (visited, found) = ([3, 1, 0], true) :=
    Option.some.inj ((hends 5 (by decide +kernel)).symm.trans hclimb)
  cases hfound
  have hloop : (g.setParent 0 none).tables.clear? [0] =
      some ([0, 2, 1, 3], ⟨[(4, "e".toList)], []⟩) := by decide +kernel
  obtain ⟨rfl, hleft⟩ := Prod.mk.inj (Option.some.inj (hcleared.symm.trans hloop))
  have hparent : g.parent? 0 = none := by decide +kernel
  rw [hparent] at hdelete
  refine ⟨hg, hroot, hleaf, hclimb, hlink, g', hcleared, hdelete, ?_⟩
  rw [← mem_ids, ← keys_labels, hleft]
  exact List.mem_singleton_self 4

/-- In a derivation that is no forest, two nodes that hang from each other keep the walk going. -/
example : climb? ⟨[⟨0, [], some 1⟩, ⟨1, [], some 0⟩], 2⟩ 2 100 (some 0) = none := by
  decide +kernel

/-- Where two children have one number, the parent of the second one is gone with that of the first
one. -/
example : (tables ⟨[⟨0, [], none⟩, ⟨1, [], some 0⟩, ⟨1, [], some 0⟩], 2⟩).clear? [0] = none := by
  decide +kernel

end Derivation

end GrammarTree
