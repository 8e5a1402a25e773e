import GrammarTree.Proofs.Derivation.Edits

/-!
# What new nodes add

A derivation grows by nodes that hang from nodes it already has. This file says what the look-ups
answer afterwards: the old nodes stay as they are, each new node has its label and its parent, and a
node that got a child is no longer incomplete.

New nodes come in three arrangements: one node, several children of one node, and a row of nodes
each hanging from the one before it. For each of them the same questions are answered, so that a
larger edit, which uses two of them one after the other, can be taken apart. That the old nodes stay
is one relation between derivations (`Derivation.Extends`), which composes, and it is proved for all
three arrangements before anything is said about the new nodes.

The incomplete nodes need more care than the look-ups. A child takes its parent off them, unless
there is no child at all: an alternative without tokens leaves its node incomplete. In a row every
node but the last gets a child as soon as it is made.

What is here:

* `Derivation.Extends`, the derivations that hold all nodes of another one unchanged;
* `Derivation.children_withChildren`: new children come last;
* the labels, the parents and the incomplete nodes after one new node (`growAt`), after several
  children of one node (`withChildren`), and after a row of nodes each hanging from the one before
  it (`withDescendants`);
* `Derivation.IsForest.chained_withDescendants`: along such a row the labels are related in the way
  that the labels of the row are.
-/

set_option autoImplicit false

namespace GrammarTree

namespace Derivation

variable {g g' g'' : Derivation} {parent x : NodeId} {label : Text} {labels : List Text}

/-! ## Extensions -/

/-- Whether a derivation holds all nodes of another one as they are there. -/
def Extends (g g' : Derivation) : Prop :=
  ∀ (x : NodeId) (n : Node), g.find? x = some n → g'.find? x = some n

theorem extends_refl (g : Derivation) : g.Extends g := fun _ _ h => h

theorem Extends.trans (h : g.Extends g') (h' : g'.Extends g'') : g.Extends g'' :=
  fun x n hn => h' x n (h x n hn)

theorem extends_growAt (parent : Option NodeId) (label : Text) :
    g.Extends (g.growAt parent label) := by
  intro x n hn
  rw [find?_growAt, hn, Option.some_or]

theorem extends_withChildren (parent : NodeId) (labels : List Text) :
    g.Extends (g.withChildren parent labels) := by
  induction labels generalizing g with
  | nil => exact extends_refl g
  | cons label labels ih => exact (extends_growAt (some parent) label).trans ih

theorem extends_withDescendants (parent : NodeId) (labels : List Text) :
    g.Extends (g.withDescendants parent labels) := by
  induction labels generalizing g parent with
  | nil => exact extends_refl g
  | cons label labels ih => exact (extends_growAt (some parent) label).trans (ih g.next)

theorem Extends.find?_eq (h : g.Extends g') (hx : g.contains x = true) :
    g'.find? x = g.find? x := by
  obtain ⟨n, hn⟩ := contains_iff.1 hx
  rw [hn, h x n hn]

theorem Extends.contains (h : g.Extends g') (hx : g.contains x = true) : g'.contains x = true := by
  rw [Derivation.contains, h.find?_eq hx]
  exact hx

theorem Extends.label?_eq (h : g.Extends g') (hx : g.contains x = true) :
    g'.label? x = g.label? x := by
  rw [label?, h.find?_eq hx, label?]

theorem Extends.parent?_eq (h : g.Extends g') (hx : g.contains x = true) :
    g'.parent? x = g.parent? x := by
  rw [parent?, h.find?_eq hx, parent?]

theorem isPlaceholder_eq (g : Derivation) (x : NodeId) :
    g.isPlaceholder x = (g.label? x).any GrammarTree.isPlaceholder := by
  rw [isPlaceholder, label?]
  cases g.find? x <;> rfl

theorem Extends.isPlaceholder_eq (h : g.Extends g') (hx : g.contains x = true) :
    g'.isPlaceholder x = g.isPlaceholder x := by
  rw [Derivation.isPlaceholder_eq, h.label?_eq hx, Derivation.isPlaceholder_eq]

theorem contains_of_isPlaceholder (h : g.isPlaceholder x = true) : g.contains x = true := by
  rw [isPlaceholder_eq] at h
  rw [contains_eq_isSome_label?]
  cases hlabel : g.label? x with
  | none => simp [hlabel] at h
  | some label => rfl

/-! ### The node that gets the children -/

theorem find?_growAt_of_ne (hx : x ≠ g.next) (parent : Option NodeId) (label : Text) :
    (g.growAt parent label).find? x = g.find? x := by
  rw [find?_growAt, if_neg (Ne.symm hx), Option.or_none]

/-- All but the new children are as they were. -/
theorem find?_withChildren_of_notMem (parent : NodeId) {labels : List Text}
    (hx : x ∉ g.newIds labels.length) : (g.withChildren parent labels).find? x = g.find? x := by
  induction labels generalizing g with
  | nil => rfl
  | cons label labels ih =>
    rw [List.length_cons, newIds_succ (some parent) label, List.mem_cons, not_or] at hx
    rw [withChildren, ih hx.2, find?_growAt_of_ne hx.1]

theorem children_growAt (parent : NodeId) (label : Text) :
    (g.growAt (some parent) label).children parent = g.children parent ++ [(g.next : NodeId)] := by
  simp [children, growAt, List.filter_append]

/-- New children come after those that a node has. -/
theorem children_withChildren (parent : NodeId) (labels : List Text) :
    (g.withChildren parent labels).children parent =
      g.children parent ++ g.newIds labels.length := by
  induction labels generalizing g with
  | nil => simp [withChildren, newIds]
  | cons label labels ih =>
    rw [withChildren, ih, children_growAt, List.length_cons, newIds_succ (some parent) label,
      List.append_assoc, List.singleton_append]

/-! ## One new node -/

namespace IsForest

theorem contains_growAt_next (hg : g.IsForest) (parent : Option NodeId) (label : Text) :
    (g.growAt parent label).contains g.next = true :=
  (hg.contains_growAt parent label g.next).2 (Or.inl rfl)

theorem contains_of_mem_incomplete (hg : g.IsForest) (h : x ∈ g.incomplete) :
    g.contains x = true :=
  contains_of_isPlaceholder ((mem_incomplete hg.nodup).1 h).1

theorem next_notMem_incomplete (hg : g.IsForest) : (g.next : NodeId) ∉ g.incomplete := by
  intro h
  have hnext := hg.contains_of_mem_incomplete h
  rw [hg.contains_next] at hnext
  cases hnext

/-- A new node takes its parent off the incomplete nodes, and is one of them itself when it is a
placeholder. -/
theorem mem_incomplete_growAt (hg : g.IsForest) {parent : Option NodeId}
    (hparent : ∀ p ∈ parent, g.contains p = true) (label : Text) (x : NodeId) :
    x ∈ (g.growAt parent label).incomplete ↔
      (x ∈ g.incomplete ∧ parent ≠ some x) ∨
        (x = g.next ∧ GrammarTree.isPlaceholder label = true) := by
  have hnew := hg.growAt hparent label
  have hfresh : ∀ child, g.parent? child ≠ some (g.next : NodeId) := by
    intro child hchild
    have hnext := hg.contains_parent hchild
    rw [hg.contains_next] at hnext
    cases hnext
  have hne : parent ≠ some (g.next : NodeId) := by
    intro heq
    have hnext := hparent _ heq
    rw [hg.contains_next] at hnext
    cases hnext
  rw [mem_incomplete hnew.nodup, mem_incomplete hg.nodup]
  simp only [hg.parent?_growAt, isPlaceholder_eq, hg.label?_growAt]
  constructor
  · rintro ⟨hplaceholder, hchildless⟩
    have hx : parent ≠ some x := by
      have hlast := hchildless g.next
      rwa [if_pos rfl] at hlast
    by_cases hnext : x = g.next
    · rw [if_pos hnext] at hplaceholder
      exact Or.inr ⟨hnext, hplaceholder⟩
    · rw [if_neg hnext] at hplaceholder
      refine Or.inl ⟨⟨hplaceholder, fun child hchild => ?_⟩, hx⟩
      have hold := hchildless child
      rw [if_neg] at hold
      · exact hold hchild
      · rintro rfl
        have hcontains := contains_of_parent? hchild
        rw [hg.contains_next] at hcontains
        cases hcontains
  · rintro (⟨⟨hplaceholder, hchildless⟩, hx⟩ | ⟨rfl, hplaceholder⟩)
    · have hnext : x ≠ g.next := by
        rintro rfl
        rw [← isPlaceholder_eq] at hplaceholder
        have hcontains := contains_of_isPlaceholder hplaceholder
        rw [hg.contains_next] at hcontains
        cases hcontains
      rw [if_neg hnext]
      refine ⟨hplaceholder, fun child => ?_⟩
      split
      · exact hx
      · exact hchildless child
    · rw [if_pos rfl]
      refine ⟨hplaceholder, fun child => ?_⟩
      split
      · exact hne
      · exact hfresh child

theorem mem_incomplete_growAt_some (hg : g.IsForest) (hparent : g.contains parent = true)
    (label : Text) (x : NodeId) :
    x ∈ (g.growAt (some parent) label).incomplete ↔
      (x ∈ g.incomplete ∧ x ≠ parent) ∨
        (x = g.next ∧ GrammarTree.isPlaceholder label = true) := by
  rw [hg.mem_incomplete_growAt (fun p hp => Option.some.inj hp ▸ hparent), Ne, Option.some_inj,
    eq_comm]

/-! ## Several children of one node

The children are added one after the other to the same node. After the first of them the node is not
incomplete any more, and the induction over the others starts from a derivation where this is
already so; the case without children is therefore kept apart in the statements. -/

theorem contains_withChildren (hg : g.IsForest) (hparent : g.contains parent = true)
    (labels : List Text) :
    (g.withChildren parent labels).contains x = true ↔
      g.contains x = true ∨ x ∈ g.newIds labels.length := by
  induction labels generalizing g with
  | nil => simp [Derivation.withChildren, newIds]
  | cons label labels ih =>
    rw [Derivation.withChildren, ih (hg.growAt_some hparent label)
      ((extends_growAt _ label).contains hparent), hg.contains_growAt, List.length_cons,
      newIds_succ (some parent) label, List.mem_cons]
    tauto

theorem label?_withChildren (hg : g.IsForest) (hparent : g.contains parent = true)
    (labels : List Text) :
    (g.newIds labels.length).map (g.withChildren parent labels).label? = labels.map some := by
  induction labels generalizing g with
  | nil => rfl
  | cons label labels ih =>
    have hnew := hg.contains_growAt_next (some parent) label
    rw [List.length_cons, newIds_succ (some parent) label, List.map_cons, Derivation.withChildren,
      (extends_withChildren parent labels).label?_eq hnew, hg.label?_growAt, if_pos rfl,
      ih (hg.growAt_some hparent label) ((extends_growAt _ label).contains hparent), List.map_cons]

theorem parent?_withChildren (hg : g.IsForest) (hparent : g.contains parent = true)
    (hx : x ∈ g.newIds labels.length) :
    (g.withChildren parent labels).parent? x = some parent := by
  induction labels generalizing g with
  | nil => simp [newIds] at hx
  | cons label labels ih =>
    rw [List.length_cons, newIds_succ (some parent) label] at hx
    rw [Derivation.withChildren]
    rcases List.mem_cons.1 hx with rfl | hx
    · rw [(extends_withChildren parent labels).parent?_eq (hg.contains_growAt_next _ label),
        hg.parent?_growAt, if_pos rfl]
    · exact ih (hg.growAt_some hparent label) ((extends_growAt _ label).contains hparent) hx

/-- The placeholders among new children are incomplete, and the node that got them is not. -/
theorem mem_incomplete_withChildren (hg : g.IsForest) (hparent : g.contains parent = true)
    (labels : List Text) (x : NodeId) :
    x ∈ (g.withChildren parent labels).incomplete ↔
      (x ∈ g.incomplete ∧ (labels ≠ [] → x ≠ parent)) ∨
        x ∈ (g.withChildren parent labels).placeholders (g.newIds labels.length) := by
  induction labels generalizing g with
  | nil => simp [Derivation.withChildren, placeholders, newIds]
  | cons label labels ih =>
    have hnew := hg.contains_growAt_next (some parent) label
    have hne : parent ≠ g.next := by
      rintro rfl
      rw [hg.contains_next] at hparent
      cases hparent
    have hextends := extends_withChildren (g := g.growAt (some parent) label) parent labels
    have hnext : (g.withChildren parent (label :: labels)).isPlaceholder g.next =
        GrammarTree.isPlaceholder label := by
      rw [Derivation.withChildren, hextends.isPlaceholder_eq hnew, isPlaceholder_eq,
        hg.label?_growAt, if_pos rfl, Option.any_some]
    have hmem : x ∈ (g.withChildren parent (label :: labels)).placeholders
          (g.newIds (label :: labels).length) ↔
        (x = g.next ∧ GrammarTree.isPlaceholder label = true) ∨
          x ∈ (g.withChildren parent (label :: labels)).placeholders
            ((g.growAt (some parent) label).newIds labels.length) := by
      rw [List.length_cons, newIds_succ (some parent) label, placeholders, List.mem_filter,
        List.mem_cons, or_and_right, placeholders, List.mem_filter, ← hnext]
      exact or_congr_left (and_congr_right fun hx => by rw [hx])
    rw [hmem, Derivation.withChildren, ih (hg.growAt_some hparent label)
      ((extends_growAt _ label).contains hparent), hg.mem_incomplete_growAt_some hparent]
    constructor
    · rintro (⟨⟨hx, hxne⟩ | hx, -⟩ | hx)
      · exact Or.inl ⟨hx, fun _ => hxne⟩
      · exact Or.inr (Or.inl hx)
      · exact Or.inr (Or.inr hx)
    · rintro (⟨hx, hxne⟩ | hx | hx)
      · have hxne := hxne (List.cons_ne_nil _ _)
        exact Or.inl ⟨Or.inl ⟨hx, hxne⟩, fun _ => hxne⟩
      · exact Or.inl ⟨Or.inr hx, fun _ => hx.1 ▸ hne.symm⟩
      · exact Or.inr hx

/-! ## A row of nodes, one below the other -/

theorem label?_withDescendants (hg : g.IsForest) (hparent : g.contains parent = true)
    (labels : List Text) :
    (g.newIds labels.length).map (g.withDescendants parent labels).label? = labels.map some := by
  induction labels generalizing g parent with
  | nil => rfl
  | cons label labels ih =>
    have hnew := hg.contains_growAt_next (some parent) label
    rw [List.length_cons, newIds_succ (some parent) label, List.map_cons,
      Derivation.withDescendants, (extends_withDescendants _ labels).label?_eq hnew,
      hg.label?_growAt, if_pos rfl, ih (hg.growAt_some hparent label) hnew, List.map_cons]

theorem parent?_withDescendants (hg : g.IsForest) (hparent : g.contains parent = true)
    (labels : List Text) :
    (g.newIds labels.length).map (g.withDescendants parent labels).parent? =
      ((parent :: g.newIds labels.length).dropLast).map some := by
  induction labels generalizing g parent with
  | nil => rfl
  | cons label labels ih =>
    have hnew := hg.contains_growAt_next (some parent) label
    rw [List.length_cons, newIds_succ (some parent) label, List.map_cons,
      Derivation.withDescendants, (extends_withDescendants _ labels).parent?_eq hnew,
      hg.parent?_growAt, if_pos rfl, ih (hg.growAt_some hparent label) hnew,
      List.dropLast_cons_of_ne_nil (List.cons_ne_nil _ _), List.map_cons]

/-- Of a row of placeholders only the last one is incomplete, and the node that it hangs from is
not. -/
theorem mem_incomplete_withDescendants (hg : g.IsForest) (hparent : g.contains parent = true)
    (hlabels : ∀ label ∈ labels, GrammarTree.isPlaceholder label = true) (hne : labels ≠ [])
    (x : NodeId) :
    x ∈ (g.withDescendants parent labels).incomplete ↔
      (x ∈ g.incomplete ∧ x ≠ parent) ∨ (g.newIds labels.length).getLast? = some x := by
  induction labels generalizing g parent with
  | nil => exact absurd rfl hne
  | cons label labels ih =>
    have hlabel := hlabels label (List.mem_cons_self ..)
    have hstep := hg.mem_incomplete_growAt_some hparent label x
    rw [List.length_cons, newIds_succ (some parent) label, Derivation.withDescendants]
    cases labels with
    | nil =>
      rw [Derivation.withDescendants, hstep]
      simp [hlabel, newIds, eq_comm]
    | cons label' labels =>
      rw [ih (hg.growAt_some hparent label) (hg.contains_growAt_next _ label)
        (fun l hl => hlabels l (List.mem_cons_of_mem _ hl)) (List.cons_ne_nil _ _), hstep]
      have hlast : ∀ ids : List NodeId, ids ≠ [] →
          ((g.next : NodeId) :: ids).getLast? = ids.getLast? := by
        intro ids hids
        cases ids with
        | nil => exact absurd rfl hids
        | cons id ids => exact List.getLast?_cons_cons
      rw [hlast]
      · constructor
        · rintro (⟨hx | ⟨hx, -⟩, hxne⟩ | hx)
          · exact Or.inl hx
          · exact absurd hx hxne
          · exact Or.inr hx
        · rintro (hx | hx)
          · refine Or.inl ⟨Or.inl hx, ?_⟩
            rintro rfl
            exact hg.next_notMem_incomplete hx.1
          · exact Or.inr hx
      · rw [List.length_cons, newIds_succ (some (g.next : NodeId)) label']
        exact List.cons_ne_nil _ _

/-- Each node of a row hangs from the node above it, and what holds of neighbours among the labels
holds of the labels of the two. -/
theorem chained_withDescendants {R : Text → Text → Prop} (hg : g.IsForest) {top : Text}
    (htop : g.label? parent = some top) (hlabels : (top :: labels).IsChain R) :
    ∀ x ∈ g.newIds labels.length, ∃ above upper lower,
      (g.withDescendants parent labels).parent? x = some above ∧
        (above = parent ∨ above ∈ g.newIds labels.length) ∧
        (g.withDescendants parent labels).label? above = some upper ∧
        (g.withDescendants parent labels).label? x = some lower ∧ R upper lower := by
  induction labels generalizing g parent top with
  | nil => simp [newIds]
  | cons label labels ih =>
    have hparent := contains_of_label? htop
    have hnew := hg.contains_growAt_next (some parent) label
    have hlabel : (g.growAt (some parent) label).label? g.next = some label := by
      rw [hg.label?_growAt, if_pos rfl]
    obtain ⟨hfirst, hrest⟩ := List.isChain_cons_cons.1 hlabels
    have hextends := extends_withDescendants (g := g.growAt (some parent) label) g.next labels
    rw [List.length_cons, newIds_succ (some parent) label, Derivation.withDescendants]
    intro x hx
    rcases List.mem_cons.1 hx with rfl | hx
    · refine ⟨parent, top, label, ?_, Or.inl rfl, ?_, ?_, hfirst⟩
      · rw [hextends.parent?_eq hnew, hg.parent?_growAt, if_pos rfl]
      · rw [((extends_growAt _ label).trans hextends).label?_eq hparent, htop]
      · rw [hextends.label?_eq hnew, hlabel]
    · obtain ⟨above, upper, lower, habove, hmem, hupper, hlower, hR⟩ :=
        ih (hg.growAt_some hparent label) hlabel hrest x hx
      refine ⟨above, upper, lower, habove, Or.inr ?_, hupper, hlower, hR⟩
      exact List.mem_cons.2 hmem

end IsForest

end Derivation

end GrammarTree
