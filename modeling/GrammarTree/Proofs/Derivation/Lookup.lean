import GrammarTree.Derivation.Basic
import Mathlib.Data.List.Nodup

/-!
# Looking nodes up

A derivation is a list of nodes, and everything that is asked of it is a look-up in this list by the
number of a node. This file says what the look-ups mean and what each change of a derivation does to
them, so that no later file has to look into the list.

A look-up by number finds the first node with that number, while the lists of children, of links and
of incomplete nodes go over all nodes. The two agree only where no number is used twice. That is
part of the invariant of `Proofs.Derivation.Forest`, which is not available here, and it is the one
hypothesis of the lemmas that compare them.

What is here:

* `Derivation.find?_id`: where no number is used twice, a node is found under its number;
* `Derivation.mem_children`, `Derivation.mem_links` and `Derivation.mem_incomplete`, the lists of
  numbers by the parent of each node;
* the look-ups after `setParent` and `remove`, first of the node itself and then of its parent, its
  label and its number;
* `Derivation.growAt`, which adds a node with a parent at once. The program creates a node and links
  it in a second step; the two steps together are this one, as `Proofs.Derivation.Edits` shows.
-/

set_option autoImplicit false

namespace GrammarTree

namespace Derivation

variable {g : Derivation}

/-! ## Looking nodes up -/

theorem mem_of_find? {id : NodeId} {n : Node} (h : g.find? id = some n) : n ∈ g.nodes ∧ n.id = id :=
  ⟨List.mem_of_find?_eq_some h, by simpa using List.find?_some h⟩

theorem contains_iff {id : NodeId} : g.contains id = true ↔ ∃ n, g.find? id = some n :=
  Option.isSome_iff_exists

theorem mem_ids {id : NodeId} : id ∈ g.ids ↔ g.contains id = true := by
  rw [contains, find?, List.find?_isSome, ids, List.mem_map]
  simp only [decide_eq_true_eq]

theorem contains_of_mem {n : Node} (h : n ∈ g.nodes) : g.contains n.id = true :=
  mem_ids.1 (List.mem_map_of_mem h)

theorem contains_of_parent? {id parent : NodeId} (h : g.parent? id = some parent) :
    g.contains id = true := by
  obtain ⟨n, hn, -⟩ := Option.bind_eq_some_iff.1 h
  exact contains_iff.2 ⟨n, hn⟩

theorem contains_eq_isSome_label? (id : NodeId) : g.contains id = (g.label? id).isSome := by
  rw [contains, label?, Option.isSome_map]

theorem contains_of_label? {id : NodeId} {label : Text} (h : g.label? id = some label) :
    g.contains id = true := by
  rw [contains_eq_isSome_label?, h, Option.isSome_some]

/-- Where no number is used twice, every node is found under its number. -/
theorem find?_id (hids : g.ids.Nodup) {n : Node} (h : n ∈ g.nodes) : g.find? n.id = some n := by
  obtain ⟨m, hm⟩ := contains_iff.1 (contains_of_mem h)
  obtain ⟨hmem, hid⟩ := mem_of_find? hm
  rw [hm, List.inj_on_of_nodup_map hids hmem h hid]

theorem parent?_id (hids : g.ids.Nodup) {n : Node} (h : n ∈ g.nodes) :
    g.parent? n.id = n.parent := by
  rw [parent?, find?_id hids h, Option.bind_some]

theorem mem_children (hids : g.ids.Nodup) {id child : NodeId} :
    child ∈ g.children id ↔ g.parent? child = some id := by
  simp only [children, List.mem_map, List.mem_filter, decide_eq_true_eq]
  constructor
  · rintro ⟨n, ⟨hn, hparent⟩, rfl⟩
    rw [parent?_id hids hn, hparent]
  · intro h
    obtain ⟨n, hn, hparent⟩ := Option.bind_eq_some_iff.1 h
    obtain ⟨hmem, hid⟩ := mem_of_find? hn
    exact ⟨n, ⟨hmem, hparent⟩, hid⟩

theorem mem_links (hids : g.ids.Nodup) {parent child : NodeId} :
    (parent, child) ∈ g.links ↔ g.parent? child = some parent := by
  simp only [links, List.mem_filterMap, Option.map_eq_some_iff, Prod.mk.injEq]
  constructor
  · rintro ⟨n, hn, p, hparent, rfl, rfl⟩
    rw [parent?_id hids hn, hparent]
  · intro h
    obtain ⟨n, hn, hparent⟩ := Option.bind_eq_some_iff.1 h
    obtain ⟨hmem, hid⟩ := mem_of_find? hn
    exact ⟨n, hmem, parent, hparent, rfl, hid⟩

theorem mem_incomplete (hids : g.ids.Nodup) {id : NodeId} :
    id ∈ g.incomplete ↔ g.isPlaceholder id = true ∧ ∀ child, g.parent? child ≠ some id := by
  simp only [incomplete, isIncomplete, List.mem_map, List.mem_filter, Bool.and_eq_true,
    Bool.not_eq_true', List.any_eq_false, decide_eq_true_eq]
  constructor
  · rintro ⟨n, ⟨hn, hplaceholder, hchildless⟩, rfl⟩
    refine ⟨by rw [isPlaceholder, find?_id hids hn]; exact hplaceholder, fun child hchild => ?_⟩
    obtain ⟨m, hm, hparent⟩ := Option.bind_eq_some_iff.1 hchild
    exact hchildless m (mem_of_find? hm).1 hparent
  · rintro ⟨hplaceholder, hchildless⟩
    rw [isPlaceholder] at hplaceholder
    split at hplaceholder
    · rename_i n hn
      obtain ⟨hmem, rfl⟩ := mem_of_find? hn
      exact ⟨n, ⟨hmem, hplaceholder, fun m hm hparent => hchildless m.id
        (by rw [parent?_id hids hm, hparent])⟩, rfl⟩
    · simp at hplaceholder

/-! ## Look-ups after a change

A change gives another parent to one node, or takes one node out and leaves its children without a
parent. In both cases the look-up of any node can be told from its look-up before the change, and
all other observations follow from that one. -/

/-- Every other node is still found when one node is taken out. -/
theorem find?_nodesWithout {id x : NodeId} (hne : x ≠ id) (nodes : List Node) :
    ((nodesWithout id nodes).find? fun n => n.id = x) = nodes.find? fun n => n.id = x := by
  rw [nodesWithout, List.find?_filter]
  congr 1
  funext n
  by_cases hn : n.id = x
  · simp [hn, hne]
  · simp [hn]

theorem find?_setParent (id : NodeId) (parent : Option NodeId) (x : NodeId) :
    (g.setParent id parent).find? x =
      (g.find? x).map fun n => if n.id = id then { n with parent := parent } else n := by
  have hids : ∀ n : Node, (if n.id = id then { n with parent := parent } else n).id = n.id := by
    intro n
    split <;> rfl
  simp only [find?, setParent, List.find?_map, Function.comp_def, hids]

theorem find?_remove (id x : NodeId) :
    (g.remove id).find? x = if x = id then none else (g.find? x).map (Node.detachFrom id) := by
  have hids : ∀ n : Node, (Node.detachFrom id n).id = n.id := by
    intro n
    rw [Node.detachFrom]
    split <;> rfl
  simp only [find?, remove, List.find?_map, Function.comp_def, hids]
  split
  · rename_i h
    rw [Option.map_eq_none_iff, List.find?_eq_none]
    rintro n hn
    simpa [h] using (List.mem_filter.1 hn).2
  · rename_i h
    rw [find?_nodesWithout h]

theorem parent?_setParent {id : NodeId} (hid : g.contains id = true) (parent : Option NodeId)
    (x : NodeId) : (g.setParent id parent).parent? x = if x = id then parent else g.parent? x := by
  rw [parent?, find?_setParent]
  cases hx : g.find? x with
  | none =>
    have hne : x ≠ id := by
      rintro rfl
      simp [contains, hx] at hid
    simp [parent?, hx, hne]
  | some n =>
    obtain rfl := (mem_of_find? hx).2
    by_cases hn : n.id = id
    · simp [hn]
    · simp [parent?, hx, hn]

@[simp] theorem label?_setParent (id : NodeId) (parent : Option NodeId) (x : NodeId) :
    (g.setParent id parent).label? x = g.label? x := by
  rw [label?, find?_setParent, Option.map_map, label?]
  congr 1
  funext n
  simp only [Function.comp_apply]
  split <;> rfl

@[simp] theorem ids_setParent (id : NodeId) (parent : Option NodeId) :
    (g.setParent id parent).ids = g.ids := by
  rw [ids, setParent, List.map_map, ids]
  refine List.map_congr_left fun n _ => ?_
  simp only [Function.comp_apply]
  split <;> rfl

@[simp] theorem contains_setParent (id : NodeId) (parent : Option NodeId) (x : NodeId) :
    (g.setParent id parent).contains x = g.contains x := by
  simp only [contains_eq_isSome_label?, label?_setParent]

theorem parent?_remove (id x : NodeId) :
    (g.remove id).parent? x =
      if x = id then none else (g.parent? x).filter fun parent => parent ≠ id := by
  rw [parent?, find?_remove]
  split
  · rfl
  · rw [parent?]
    cases g.find? x with
    | none => rfl
    | some n =>
      simp only [Option.map_some, Option.bind_some, Node.detachFrom]
      cases hparent : n.parent with
      | none => simp [hparent]
      | some p => by_cases hp : p = id <;> simp [hparent, hp, Option.filter_some]

/-- What is left of the parents when a node is removed. -/
theorem parent?_remove_eq_some_iff {id x parent : NodeId} :
    (g.remove id).parent? x = some parent ↔
      x ≠ id ∧ parent ≠ id ∧ g.parent? x = some parent := by
  rw [parent?_remove]
  split
  · rename_i hx
    simp [hx]
  · rename_i hx
    rw [Option.filter_eq_some_iff, decide_eq_true_eq]
    constructor
    · rintro ⟨hparent, hne⟩
      exact ⟨hx, hne, hparent⟩
    · rintro ⟨-, hne, hparent⟩
      exact ⟨hparent, hne⟩

theorem label?_remove (id x : NodeId) :
    (g.remove id).label? x = if x = id then none else g.label? x := by
  rw [label?, find?_remove]
  split
  · rfl
  · rw [Option.map_map, label?]
    congr 1
    funext n
    simp only [Function.comp_apply, Node.detachFrom]
    split <;> rfl

theorem contains_remove (id x : NodeId) :
    (g.remove id).contains x = true ↔ x ≠ id ∧ g.contains x = true := by
  simp only [contains_eq_isSome_label?, label?_remove]
  split
  · rename_i h
    simp [h]
  · rename_i h
    simp [h]

theorem ids_remove (id : NodeId) : (g.remove id).ids = g.ids.filter fun x => x ≠ id := by
  rw [ids, remove, nodesWithout, List.map_map, ids, List.filter_map]
  refine List.map_congr_left fun n _ => ?_
  simp only [Function.comp_apply, Node.detachFrom]
  split <;> rfl

/-! ## A new node -/

/-- The derivation with one more node, which has the next number and the given parent. -/
def growAt (g : Derivation) (parent : Option NodeId) (label : Text) : Derivation :=
  ⟨g.nodes ++ [⟨g.next, label, parent⟩], g.next + 1⟩

@[simp] theorem next_growAt (parent : Option NodeId) (label : Text) :
    (g.growAt parent label).next = g.next + 1 := rfl

theorem ids_growAt (parent : Option NodeId) (label : Text) :
    (g.growAt parent label).ids = g.ids ++ [(g.next : NodeId)] := by
  rw [ids, growAt, List.map_append, ids, List.map_singleton]

theorem find?_growAt (parent : Option NodeId) (label : Text) (x : NodeId) :
    (g.growAt parent label).find? x =
      (g.find? x).or (if (g.next : NodeId) = x then some ⟨g.next, label, parent⟩ else none) := by
  simp only [find?, growAt, List.find?_append, List.find?_singleton, decide_eq_true_eq]

end Derivation

end GrammarTree
