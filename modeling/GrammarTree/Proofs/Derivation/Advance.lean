import GrammarTree.Proofs.Derivation.Edits

/-!
# Edits are all or nothing

Several of the edits of a derivation take more than one step, and a step that fails leaves what the
steps before it did. This file proves that no edit of a forest stops half-way: it leaves a forest
with the next numbers handed out, or it fails and leaves the derivation as it was.

The statement has one form for all edits. What an edit has created is read off its answer by a
function that differs from edit to edit: nothing for a link, the answer itself for a new node, two
lists put together for a path. With this function as a parameter, the ways in which an edit may end
are a relation with two constructors, and the lemmas below put each edit under it.

What is here:

* `Derivation.Advance`, what a successful edit does: it hands out the next numbers, in order and
  without a gap, and leaves a forest;
* `Derivation.Settles`, the two ways in which an edit may end;
* that every edit settles, one lemma for each.

What a whole history comes to is in `Proofs.Derivation.History`; the sessions, in which these edits
are parts of larger ones, are under `Proofs.Session`.
-/

set_option autoImplicit false

namespace GrammarTree

namespace Derivation

variable {g g' : Derivation} {α : Type}

/-! ## Advances -/

/-- What a successful edit does to a forest: it hands out the next numbers and leaves a forest. -/
structure Advance (g : Derivation) (created : List NodeId) (g' : Derivation) : Prop where
  /-- The created nodes got the next numbers. -/
  created_eq : created = g.newIds created.length
  /-- The next number has moved past them. -/
  next_eq : g'.next = g.next + created.length
  /-- The derivation is a forest again. -/
  isForest : g'.IsForest

theorem newIds_append (left right : Nat) (hnext : g'.next = g.next + left) :
    g.newIds left ++ g'.newIds right = g.newIds (left + right) := by
  rw [newIds, newIds, newIds, hnext, ← List.map_append, List.range'_append_1]

theorem nodup_newIds (count : Nat) : (g.newIds count).Nodup :=
  List.Nodup.map (fun _ _ h => Int.ofNat.inj h) List.nodup_range'

theorem advance_of_next_eq (hforest : g'.IsForest) (hnext : g'.next = g.next) : Advance g [] g' :=
  ⟨rfl, hnext, hforest⟩

theorem advance_newIds {count : Nat} (hforest : g'.IsForest) (hnext : g'.next = g.next + count) :
    Advance g (g.newIds count) g' :=
  ⟨by rw [length_newIds], by rw [length_newIds, hnext], hforest⟩

/-! ## Edits -/

/-- How an edit may end when it is all or nothing. The nodes that it has created are those that
`ids` finds in its answer. -/
inductive Settles (g : Derivation) (ids : α → List NodeId) :
    EStateM.Result Error Derivation α → Prop where
  /-- The edit advances the derivation. -/
  | done {a : α} {g' : Derivation} (h : Advance g (ids a) g') : Settles g ids (.ok a g')
  /-- The edit fails and leaves the derivation as it is. -/
  | refused (e : Error) : Settles g ids (.error e g)

/-- An edit that returns the nodes that another one has created settles like that one. -/
theorem Settles.andReturn {ids : α → List NodeId} {edit : Edit Derivation α}
    (h : Settles g ids (edit g)) :
    Settles g (fun created => created) ((edit >>= fun a => pure (ids a)) g) := by
  rw [Edit.bind_apply]
  generalize edit g = result at h ⊢
  cases h with
  | done h => exact .done h
  | refused e => exact .refused e

theorem require_settles (hg : g.IsForest) (id : NodeId) (operation : Text) :
    Settles g (fun _ => []) (require id operation g) := by
  rw [require_eq]
  split
  · exact .done (advance_of_next_eq hg rfl)
  · exact .refused _

theorem newNode_settles (hg : g.IsForest) (label : Text) :
    Settles g (fun id => [id]) (newNode label g) := by
  rw [newNode_eq]
  exact .done (advance_newIds (hg.growAt (by simp) label) (next_growAt none label))

theorem link_settles (hg : g.IsForest) (parent child : NodeId) :
    Settles g (fun _ => []) (link parent child g) := by
  rw [link_eq]
  split
  · exact .refused _
  · rename_i hparent
    split
    · exact .refused _
    · rename_i hchild
      split
      · exact .refused _
      · rename_i hcycle
        refine .done (advance_of_next_eq (hg.setParent (Bool.of_not_eq_false hchild) ?_) rfl)
        intro p hp
        obtain rfl := Option.some.inj hp
        exact ⟨Bool.of_not_eq_false hparent, fun hup => hcycle (hg.mem_lineage_iff.2 hup)⟩

theorem unlink_settles (hg : g.IsForest) (child : NodeId) :
    Settles g (fun _ => []) (unlink child g) := by
  rw [unlink_eq]
  split
  · rename_i hchild
    exact .done (advance_of_next_eq (hg.setParent_none hchild) rfl)
  · exact .refused _

theorem delete_settles (hg : g.IsForest) (id : NodeId) :
    Settles g (fun _ => []) (delete id g) := by
  rw [delete_eq]
  split
  · rename_i hid
    exact .done (advance_of_next_eq (hg.withoutSubtree hid) (next_withoutSubtree id))
  · exact .refused _

theorem expand_settles (hg : g.IsForest) (alternative : Text) (parent : NodeId) :
    Settles g (fun created => created) (expand alternative parent g) := by
  rw [expand_eq hg]
  split
  · rename_i hparent
    exact .done (advance_newIds (hg.withChildren hparent _) (next_withChildren _ _))
  · exact .refused _

theorem growPath_settles (hg : g.IsForest) (i : Index) (source : NodeId) (pattern : Text) :
    Settles g (fun growth => growth.spine ++ growth.leaves) (growPath i source pattern g) := by
  rw [growPath_eq hg]
  split
  · rename_i chain hchain
    have hsource := contains_of_chainFrom hchain
    refine .done ?_
    rw [growthOf, newIds_append _ _ (next_withDescendants source chain.intermediates)]
    refine advance_newIds (hg.withPath hsource chain) ?_
    rw [withPath, next_withChildren, next_withDescendants, Nat.add_assoc]
  · exact .refused _

end Derivation

end GrammarTree
