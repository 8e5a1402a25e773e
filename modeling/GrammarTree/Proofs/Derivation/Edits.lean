import GrammarTree.Derivation.Growth
import GrammarTree.Proofs.Derivation.Subtree

/-!
# What the edits of a derivation do

An edit is a program that may fail at any of its steps and keeps the changes made before. This file
computes the outcome of every edit in closed form: for which arguments it fails and with what error,
and what the derivation is when it succeeds. Later files compare derivations and never run a program
again.

For the edits of a single node the closed form holds everywhere. The others create several nodes,
and each new node is linked to its parent by an edit that could be refused. On a forest it is not:
nothing descends from a new node, so that no such link can close a cycle. The closed forms of
`expand` and `growPath` are therefore stated on forests, and their only failures are those that are
found before the first node is created. This is what makes them all or nothing.

What is here:

* the steps of an `Edit`, and `Edit.finalState`, the state after an edit whether or not it succeeds;
* the outcome of `newNode`, `link`, `unlink` and `delete`;
* `Derivation.newIds`, the numbers that are handed out next;
* `Derivation.withChildren` and `Derivation.withDescendants`, the derivations with several new
  nodes, one beside the other or one below the other, and the outcome of `expand`;
* `Derivation.isPathFault_of_chainFrom`: without a chain, the error tells whether there was a node
  to start from;
* `Derivation.growPath_eq`: a path is grown as a whole, or the derivation does not change.
-/

set_option autoImplicit false

namespace GrammarTree

namespace Edit

/-! ## Steps -/

variable {σ α β : Type}

@[simp] theorem bind_apply (x : Edit σ α) (f : α → Edit σ β) (s : σ) :
    (x >>= f) s = match x s with
      | .ok a s' => f a s'
      | .error e s' => .error e s' := by
  simp only [bind, EStateM.bind]
  cases x s <;> rfl

@[simp] theorem pure_apply (a : α) (s : σ) : (pure a : Edit σ α) s = .ok a s := rfl

@[simp] theorem get_apply (s : σ) : (get : Edit σ σ) s = .ok s s := rfl

@[simp] theorem get_bind_apply (f : σ → Edit σ α) (s : σ) : (get >>= f) s = f s s := rfl

@[simp] theorem modify_apply (f : σ → σ) (s : σ) : (modify f : Edit σ PUnit) s = .ok () (f s) := rfl

@[simp] theorem throw_apply (e : Error) (s : σ) : (throw e : Edit σ α) s = .error e s := rfl

@[simp] theorem ite_apply (p : Prop) [Decidable p] (x y : Edit σ α) (s : σ) :
    (if p then x else y) s = if p then x s else y s := by
  split <;> rfl

/-- A sequence of edits that succeeds has succeeded in each of them. -/
theorem exists_of_bind_eq_ok {edit : Edit σ α} {f : α → Edit σ β} {s s' : σ} {b : β}
    (h : (edit >>= f) s = .ok b s') : ∃ a s'', edit s = .ok a s'' ∧ f a s'' = .ok b s' := by
  rw [bind_apply] at h
  cases hedit : edit s with
  | ok a s'' =>
    rw [hedit] at h
    exact ⟨a, s'', rfl, h⟩
  | error e s'' =>
    rw [hedit] at h
    cases h

/-- The state that an edit leaves, whether or not it succeeds. -/
def finalState (edit : Edit σ α) (s : σ) : σ :=
  match edit s with
  | .ok _ s' => s'
  | .error _ s' => s'

end Edit

namespace Derivation

variable {g : Derivation}

/-! ## Single nodes -/

theorem require_eq (id : NodeId) (operation : Text) :
    require id operation g =
      if g.contains id then .ok () g else .error (.noSuchNode id operation) g := by
  simp [require]

theorem newNode_eq (label : Text) : newNode label g = .ok (g.next : NodeId) (g.growAt none label) :=
  rfl

theorem link_eq (parent child : NodeId) :
    link parent child g =
      if g.contains parent = false then .error (.noSuchNode parent "link".toList) g
      else if g.contains child = false then .error (.noSuchNode child "link".toList) g
      else if child ∈ g.lineage parent then .error (.cyclicLink parent child) g
      else .ok () (g.setParent child (some parent)) := by
  simp only [link, Edit.bind_apply, require_eq]
  cases g.contains parent with
  | false => rfl
  | true =>
    simp only [if_true]
    cases g.contains child with
    | false => rfl
    | true =>
      simp only [if_true, Edit.get_apply, Edit.ite_apply]
      split <;> rfl

theorem unlink_eq (child : NodeId) :
    unlink child g =
      if g.contains child then .ok (g.parent? child) (g.setParent child none)
      else .error (.noSuchNode child "unlink".toList) g := by
  simp only [unlink, Edit.bind_apply, require_eq]
  cases g.contains child <;> rfl

theorem delete_eq (id : NodeId) :
    delete id g =
      if g.contains id then .ok (g.parent? id) (g.withoutSubtree id)
      else .error (.noSuchNode id "delete".toList) g := by
  simp only [delete, Edit.bind_apply, require_eq]
  cases g.contains id <;> rfl

/-! ## New children

A child is created in two steps, as a root and then by a link. Between the two the derivation has a
root too many, and the closed forms make this state disappear: the two steps are one `growAt`, and a
row of children is one after the other. -/

/-- The numbers of the next new nodes. -/
def newIds (g : Derivation) (count : Nat) : List NodeId :=
  (List.range' g.next count).map fun (n : Nat) => (n : NodeId)

theorem newIds_succ (parent : Option NodeId) (label : Text) (count : Nat) :
    g.newIds (count + 1) = (g.next : NodeId) :: (g.growAt parent label).newIds count := by
  rw [newIds, List.range'_succ, List.map_cons, newIds, growAt]

@[simp] theorem length_newIds (count : Nat) : (g.newIds count).length = count := by
  rw [newIds, List.length_map, List.length_range']

/-- A new node is not on the way up from any other node. -/
theorem IsForest.not_descends_next (hg : g.IsForest) (label : Text) {x : NodeId} (hx : x ≠ g.next) :
    ¬ (g.growAt none label).Descends x g.next := by
  intro h
  rcases Relation.ReflTransGen.cases_tail h with heq | ⟨y, -, hstep⟩
  · exact hx heq.symm
  · rw [HangsFrom, hg.parent?_growAt] at hstep
    split at hstep
    · cases hstep
    · have hnext := hg.contains_parent hstep
      rw [hg.contains_next] at hnext
      cases hnext

theorem IsForest.setParent_growAt (hg : g.IsForest) (label : Text) (parent : Option NodeId) :
    (g.growAt none label).setParent g.next parent = g.growAt parent label := by
  have hold : ∀ n ∈ g.nodes, (if n.id = g.next then { n with parent := parent } else n) = n := by
    intro n hn
    refine if_neg fun hid => ?_
    have hnext := contains_of_mem hn
    rw [hid, hg.contains_next] at hnext
    cases hnext
  simp only [Derivation.setParent, Derivation.growAt, List.map_append, List.map_cons, List.map_nil,
    if_true, List.map_congr_left hold, List.map_id']

theorem newChild_eq (hg : g.IsForest) {parent : NodeId} (hparent : g.contains parent = true)
    (label : Text) :
    newChild parent label g = .ok (g.next : NodeId) (g.growAt (some parent) label) := by
  have hne : parent ≠ g.next := by
    rintro rfl
    rw [hg.contains_next] at hparent
    cases hparent
  have hold : (g.growAt none label).contains parent = true :=
    (hg.contains_growAt none label parent).2 (Or.inr hparent)
  have hnew : (g.growAt none label).contains g.next = true :=
    (hg.contains_growAt none label g.next).2 (Or.inl rfl)
  have hforest : (g.growAt none label).IsForest := hg.growAt (by simp) label
  have hfree : (g.next : NodeId) ∉ (g.growAt none label).lineage parent := fun hmem =>
    hg.not_descends_next label hne (hforest.mem_lineage_iff.1 hmem)
  simp only [newChild, Edit.bind_apply, newNode_eq, link_eq, hold, hnew, hfree, if_false,
    hg.setParent_growAt, Edit.pure_apply, Bool.true_eq_false]

/-- The derivation with one more child of a node for each label, in order. -/
def withChildren (g : Derivation) (parent : NodeId) : List Text → Derivation
  | [] => g
  | label :: labels => (g.growAt (some parent) label).withChildren parent labels

/-- The derivation with one more node for each label, each the child of the one before it. -/
def withDescendants (g : Derivation) (parent : NodeId) : List Text → Derivation
  | [] => g
  | label :: labels => (g.growAt (some parent) label).withDescendants g.next labels

theorem IsForest.growAt_some (hg : g.IsForest) {parent : NodeId}
    (hparent : g.contains parent = true) (label : Text) :
    (g.growAt (some parent) label).IsForest :=
  hg.growAt (fun p hp => by rw [← Option.some.inj hp, hparent]) label

theorem IsForest.withChildren (hg : g.IsForest) {parent : NodeId}
    (hparent : g.contains parent = true) (labels : List Text) :
    (g.withChildren parent labels).IsForest := by
  induction labels generalizing g with
  | nil => exact hg
  | cons label labels ih =>
    exact ih (hg.growAt_some hparent label) ((hg.contains_growAt _ label parent).2 (Or.inr hparent))

theorem IsForest.withDescendants (hg : g.IsForest) {parent : NodeId}
    (hparent : g.contains parent = true) (labels : List Text) :
    (g.withDescendants parent labels).IsForest := by
  induction labels generalizing g parent with
  | nil => exact hg
  | cons label labels ih =>
    exact ih (hg.growAt_some hparent label) ((hg.contains_growAt _ label g.next).2 (Or.inl rfl))

@[simp] theorem next_withChildren (parent : NodeId) (labels : List Text) :
    (g.withChildren parent labels).next = g.next + labels.length := by
  induction labels generalizing g with
  | nil => rfl
  | cons label labels ih =>
    rw [withChildren, ih, next_growAt, List.length_cons]
    omega

@[simp] theorem next_withDescendants (parent : NodeId) (labels : List Text) :
    (g.withDescendants parent labels).next = g.next + labels.length := by
  induction labels generalizing g parent with
  | nil => rfl
  | cons label labels ih =>
    rw [withDescendants, ih, next_growAt, List.length_cons]
    omega

theorem IsForest.contains_withDescendants (hg : g.IsForest) {parent : NodeId}
    (hparent : g.contains parent = true) (labels : List Text) {x : NodeId} :
    (g.withDescendants parent labels).contains x = true ↔
      g.contains x = true ∨ x ∈ g.newIds labels.length := by
  induction labels generalizing g parent with
  | nil => simp [Derivation.withDescendants, newIds]
  | cons label labels ih =>
    rw [Derivation.withDescendants, ih (hg.growAt_some hparent label)
      ((hg.contains_growAt _ label g.next).2 (Or.inl rfl)), hg.contains_growAt, List.length_cons,
      newIds_succ (some parent) label, List.mem_cons]
    tauto

theorem newChildren_eq (hg : g.IsForest) {parent : NodeId} (hparent : g.contains parent = true)
    (labels : List Text) :
    newChildren parent labels g =
      .ok (g.newIds labels.length) (g.withChildren parent labels) := by
  induction labels generalizing g with
  | nil => rfl
  | cons label labels ih =>
    have hrest := ih (hg.growAt_some hparent label)
      ((hg.contains_growAt _ label parent).2 (Or.inr hparent))
    simp only [newChildren, Edit.bind_apply, newChild_eq hg hparent, hrest, Edit.pure_apply,
      List.length_cons, newIds_succ (some parent) label, withChildren]

theorem newDescendants_eq (hg : g.IsForest) {parent : NodeId} (hparent : g.contains parent = true)
    (labels : List Text) :
    newDescendants parent labels g =
      .ok (g.newIds labels.length) (g.withDescendants parent labels) := by
  induction labels generalizing g parent with
  | nil => rfl
  | cons label labels ih =>
    have hrest := ih (hg.growAt_some hparent label)
      ((hg.contains_growAt _ label g.next).2 (Or.inl rfl))
    simp only [newDescendants, Edit.bind_apply, newChild_eq hg hparent, hrest, Edit.pure_apply,
      List.length_cons, newIds_succ (some parent) label, withDescendants]

theorem expand_eq (hg : g.IsForest) (alternative : Text) (parent : NodeId) :
    expand alternative parent g =
      if g.contains parent then
        .ok (g.newIds (Alternative.tokens alternative).length)
          (g.withChildren parent (Alternative.tokens alternative))
      else .error (.noSuchNode parent "expand".toList) g := by
  simp only [expand, Edit.bind_apply, require_eq]
  cases hparent : g.contains parent with
  | false => rfl
  | true => exact newChildren_eq hg hparent _

/-! ## Paths -/

theorem contains_of_chainFrom {i : Index} {source : NodeId} {pattern : Text} {chain : Chain}
    (h : g.chainFrom i source pattern = .ok chain) : g.contains source = true := by
  rw [chainFrom] at h
  split at h
  · cases h
  · rename_i label hlabel
    exact contains_of_label? hlabel

theorem exists_path_of_chainFrom {i : Index} {source : NodeId} {label pattern : Text} {e : Error}
    (hlabel : g.label? source = some label) (h : g.chainFrom i source pattern = .error e) :
    ∃ fault, e = .path fault := by
  rw [chainFrom, hlabel] at h
  simp only at h
  split at h
  · cases h
    exact ⟨_, rfl⟩
  · split at h
    · cases h
      exact ⟨_, rfl⟩
    · split at h
      · cases h
        exact ⟨_, rfl⟩
      · cases h

/-- Without a chain, the node is missing or there is no simple path. -/
theorem eq_of_chainFrom_eq_error {i : Index} {source : NodeId} {pattern : Text} {e : Error}
    (h : g.chainFrom i source pattern = .error e) :
    e = .noSuchNode source "find a path from".toList ∨ ∃ fault, e = .path fault := by
  cases hlabel : g.label? source with
  | none =>
    rw [chainFrom, hlabel] at h
    cases h
    exact Or.inl rfl
  | some label => exact Or.inr (exists_path_of_chainFrom hlabel h)

/-- It is the path that is at fault where there is a node to start from, and the node where there is
none. -/
theorem isPathFault_of_chainFrom {i : Index} {source : NodeId} {pattern : Text} {e : Error}
    (h : g.chainFrom i source pattern = .error e) : e.isPathFault = g.contains source := by
  cases hlabel : g.label? source with
  | none =>
    rw [chainFrom, hlabel] at h
    cases h
    rw [contains_eq_isSome_label?, hlabel]
    rfl
  | some label =>
    obtain ⟨fault, rfl⟩ := exists_path_of_chainFrom hlabel h
    rw [contains_eq_isSome_label?, hlabel]
    rfl

/-- The node below which the alternative of a chain is expanded: the last intermediate node, or
the source where there is none. -/
def attachOf (g : Derivation) (source : NodeId) (chain : Chain) : NodeId :=
  (g.newIds chain.intermediates.length).getLast?.getD source

/-- The derivation with a chain below a node. -/
def withPath (g : Derivation) (source : NodeId) (chain : Chain) : Derivation :=
  (g.withDescendants source chain.intermediates).withChildren (g.attachOf source chain)
    (Alternative.tokens chain.alternative)

/-- The nodes that a chain below a node adds. -/
def growthOf (g : Derivation) (source : NodeId) (chain : Chain) : Growth where
  source := source
  chain := chain
  spine := g.newIds chain.intermediates.length
  leaves := (g.withDescendants source chain.intermediates).newIds
    (Alternative.tokens chain.alternative).length
  unfinished := (g.withPath source chain).placeholders
    ((g.withDescendants source chain.intermediates).newIds
      (Alternative.tokens chain.alternative).length)

theorem IsForest.contains_attachOf (hg : g.IsForest) {source : NodeId}
    (hsource : g.contains source = true) (chain : Chain) :
    (g.withDescendants source chain.intermediates).contains (g.attachOf source chain) = true := by
  rw [hg.contains_withDescendants hsource, attachOf]
  cases hlast : (g.newIds chain.intermediates.length).getLast? with
  | none => exact Or.inl hsource
  | some last => exact Or.inr (List.mem_of_getLast? hlast)

theorem IsForest.withPath (hg : g.IsForest) {source : NodeId} (hsource : g.contains source = true)
    (chain : Chain) : (g.withPath source chain).IsForest :=
  (hg.withDescendants hsource _).withChildren (hg.contains_attachOf hsource chain) _

/-- **A path is grown as a whole.** When the chain is found no later step can fail, and when it is
not found the derivation does not change. -/
theorem growPath_eq (hg : g.IsForest) (i : Index) (source : NodeId) (pattern : Text) :
    growPath i source pattern g =
      match g.chainFrom i source pattern with
      | .ok chain => .ok (g.growthOf source chain) (g.withPath source chain)
      | .error e => .error e g := by
  simp only [growPath, Edit.bind_apply, Edit.get_apply]
  cases hchain : g.chainFrom i source pattern with
  | error e => rfl
  | ok chain =>
    have hsource := contains_of_chainFrom hchain
    have hattach := hg.contains_attachOf hsource chain
    simp only [Edit.bind_apply, newDescendants_eq hg hsource,
      expand_eq (hg.withDescendants hsource _), Edit.get_apply, Edit.pure_apply]
    rw [attachOf] at hattach
    simp only [hattach, if_true]
    rfl

end Derivation

end GrammarTree
