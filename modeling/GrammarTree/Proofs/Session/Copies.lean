import GrammarTree.Proofs.Session.Agenda
import GrammarTree.Proofs.Session.Selecting

/-!
# A node that is twice on the agenda

An edit that works on a node takes it off the agenda: a link that makes it a parent, a choice that
expands it, and a path that starts from it. Each of them takes away the first occurrence only. This
file asks how often a node can be there, and so whether it is still there afterwards. There is one
way to be on the agenda again: an edit that separates a child from its parent puts the parent at the
end of the agenda, whether or not it is on it.

The number of occurrences is bounded by a list that is computed along the lines: the parents that
were put back while they were on the agenda. A node is there at most once more than it is in this
list. The bound is an invariant of the effects, and the list is what the session itself forgets.

What is here:

* `Session.WorksOn`, the edits that work on a node, and `Session.WorksOn.count_agenda`: they take
  one occurrence away;
* `Session.requeued`, the parents that were put on the agenda although they were there;
* `Session.BoundsCopies`, the invariant of the effects: a node is on the agenda at most once more
  than it was put back in this way;
* `Session.agenda_after_work`, all of it for every history of lines.
-/

set_option autoImplicit false

namespace GrammarTree

/-! ## Numbers of new nodes -/

namespace Derivation

variable {g : Derivation}

/-- The placeholders that a path reports have new numbers. -/
theorem unfinished_sublist (g : Derivation) (source : NodeId) (chain : Chain) :
    List.Sublist (g.growthOf source chain).unfinished (g.newIds
      (chain.intermediates.length + (Alternative.tokens chain.alternative).length)) := by
  rw [← newIds_append _ _ (next_withDescendants source chain.intermediates)]
  exact (List.filter_sublist ..).trans (List.sublist_append_right _ _)

end Derivation

/-! ## Occurrences on an agenda -/

namespace Agenda

variable {q : Agenda} {x : NodeId} {n : Nat}

theorem count_remove_self (q : Agenda) (x : NodeId) :
    (q.remove x).ids.count x = q.ids.count x - 1 :=
  List.count_erase_self

theorem count_remove_le (q : Agenda) (id x : NodeId) :
    (q.remove id).ids.count x ≤ q.ids.count x :=
  List.erase_sublist.count_le x

theorem count_restrict_le (g : Derivation) (q : Agenda) (x : NodeId) :
    (q.restrict g).ids.count x ≤ q.ids.count x :=
  List.filter_sublist.count_le x

/-- Only the added node has one occurrence more. -/
theorem count_append_le (q : Agenda) (id : Option NodeId) (x : NodeId) :
    (q.append id).ids.count x ≤ q.ids.count x + id.toList.count x := by
  cases id with
  | none => exact Nat.le_refl _
  | some id =>
    rw [append]
    split
    · exact Nat.le_add_right _ _
    · rw [List.count_append, Option.toList_some]

/-- A node that is made the current one has no new occurrence unless it had none. -/
theorem count_bringToFront_le {id : NodeId} (h : q.ids.count x ≤ n + 1) :
    (q.bringToFront id).ids.count x ≤ n + 1 := by
  rw [bringToFront, List.count_cons]
  by_cases hx : x = id
  · subst hx
    rw [List.count_erase_self, if_pos (beq_self_eq_true x)]
    omega
  · rw [List.count_erase_of_ne hx, if_neg (by simpa using Ne.symm hx)]
    exact h

/-- Different new nodes have one occurrence each. -/
theorem count_prepend_le {ids : List NodeId} (hnodup : ids.Nodup) (hnew : ∀ y ∈ ids, y ∉ q.ids)
    (h : q.ids.count x ≤ n + 1) : (q.prepend ids).ids.count x ≤ n + 1 := by
  rw [prepend, List.count_append]
  by_cases hx : x ∈ ids
  · rw [List.count_eq_zero_of_not_mem (hnew x hx)]
    have hone := List.nodup_iff_count_le_one.1 hnodup x
    omega
  · rw [List.count_eq_zero_of_not_mem hx, Nat.zero_add]
    exact h

end Agenda

namespace Session

variable {s s' : Session}

/-! ## Working on a node

The edit that works on a node also puts new nodes on the agenda. It takes exactly one occurrence
away because none of the new nodes is the node itself: a new number is above all others. -/

/-- An edit that works on a node leads from one session to another. -/
inductive WorksOn (s : Session) (node : NodeId) (s' : Session) : Prop where
  /-- The node becomes the parent of another one. -/
  | link {child : NodeId} (h : Session.link node child s = .ok () s')
  /-- The node is expanded by the alternative at a position. -/
  | choose {rule : Rule} {position : Option Int} {created : List NodeId}
      (hselection : s.selection = some ⟨rule, node⟩)
      (h : Session.choose position s = .ok created s')
  /-- The node is expanded by the alternative that a pattern matches. -/
  | chooseMatching {rule : Rule} {pattern : Text} {created : List NodeId}
      (hselection : s.selection = some ⟨rule, node⟩)
      (h : Session.chooseMatching pattern s = .ok created s')
  /-- A path grows from the node. -/
  | growPath {start : Option NodeId} {pattern : Text} {growth : Growth}
      (hsource : growth.source = node) (h : Session.growPath start pattern s = .ok growth s')

/-- New nodes are not on the agenda. -/
theorem HoldsAgenda.notMem_of_mem_newIds (h : s.HoldsAgenda) (hs : s.derivation.IsForest)
    {count : Nat} {x : NodeId} (hx : x ∈ s.derivation.newIds count) : x ∉ s.agenda.ids := by
  intro hmem
  have hcontains := h x hmem
  rw [hs.contains_eq_false_of_mem_newIds hx] at hcontains
  cases hcontains

/-- Expanding a node takes one of its occurrences away: none of its children is the node. -/
theorem count_agenda_expand (hs : s.derivation.IsForest) {node : NodeId}
    (hnode : s.derivation.contains node = true) (alternative : Text) :
    ((Effect.expand node alternative).applyTo s).agenda.ids.count node =
      s.agenda.ids.count node - 1 := by
  have hchildren : node ∉
      (s.derivation.withChildren node (Alternative.tokens alternative)).placeholders
        (s.derivation.newIds (Alternative.tokens alternative).length) := by
    intro hmem
    rw [hs.contains_eq_false_of_mem_newIds (List.mem_of_mem_filter hmem)] at hnode
    cases hnode
  rw [Effect.applyTo, Agenda.prepend, List.count_append, List.count_eq_zero_of_not_mem hchildren,
    Nat.zero_add, Agenda.count_remove_self]

/-- A path takes one occurrence of its start away: none of its nodes is the start. -/
theorem count_agenda_growPath (hs : s.derivation.IsForest) {node : NodeId}
    (hnode : s.derivation.contains node = true) (chain : Chain) :
    ((Effect.growPath node chain).applyTo s).agenda.ids.count node =
      s.agenda.ids.count node - 1 := by
  have hleaves : node ∉ (s.derivation.growthOf node chain).unfinished := by
    intro hmem
    have hnew := (s.derivation.unfinished_sublist node chain).subset hmem
    rw [hs.contains_eq_false_of_mem_newIds hnew] at hnode
    cases hnode
  rw [Effect.applyTo, Agenda.count_remove_self, Agenda.prepend, List.count_append,
    List.count_eq_zero_of_not_mem hleaves, Nat.zero_add]

/-- **Working on a node takes one of its occurrences off the agenda.** -/
theorem WorksOn.count_agenda (hs : s.derivation.IsForest) {node : NodeId} (h : s.WorksOn node s') :
    s'.agenda.ids.count node = s.agenda.ids.count node - 1 := by
  cases h with
  | link h =>
    obtain ⟨e, rfl, -, rfl⟩ := link_yields _ _ _ _ h
    exact Agenda.count_remove_self _ _
  | choose hselection h =>
    obtain ⟨e, ⟨selected, a, rfl, -⟩, ⟨hnode, rule, hrule, -⟩, rfl⟩ := choose_yields hs _ _ _ h
    cases hselection.symm.trans hrule
    exact count_agenda_expand hs hnode a
  | chooseMatching hselection h =>
    obtain ⟨e, ⟨selected, a, position, rfl, -⟩, ⟨hnode, rule, hrule, -⟩, rfl⟩ :=
      chooseMatching_yields hs _ _ _ h
    cases hselection.symm.trans hrule
    exact count_agenda_expand hs hnode a
  | growPath hsource h =>
    obtain ⟨⟨pattern, hchain⟩, rfl⟩ := growPath_eq_ok hs h
    rw [← hsource]
    exact count_agenda_growPath hs (Derivation.contains_of_chainFrom hchain) _

/-! ## Parents that are put on the agenda again

An unlinked or deleted node has a parent or none. If it has one, this parent is put at the end of
the agenda, and whether that is a second occurrence depends on the agenda before. -/

/-- The parent of a node, if it is on the agenda. -/
def queuedParent (s : Session) (node : NodeId) : List NodeId :=
  (s.derivation.parent? node).toList.filter fun parent => parent ∈ s.agenda.ids

/-- The nodes that an effect puts on the agenda although they are there. -/
def Effect.requeued : Effect → Session → List NodeId
  | .unlink node, s => s.queuedParent node
  | .delete node, s => s.queuedParent node
  | _, _ => []

/-- A node is on the agenda at most once more than it is among the given ones. -/
def BoundsCopies (s : Session) (again : List NodeId) : Prop :=
  ∀ x, s.agenda.ids.count x ≤ again.count x + 1

/-- Putting the parent of a node at the end of the agenda adds a second occurrence only when it is
there. -/
theorem count_append_parent_le {q : Agenda} {n : Nat} {node x : NodeId}
    (hq : q.ids.count x ≤ s.agenda.ids.count x) (h : s.agenda.ids.count x ≤ n + 1) :
    (q.append (s.derivation.parent? node)).ids.count x ≤ n + (s.queuedParent node).count x + 1 := by
  have hadded := q.count_append_le (s.derivation.parent? node) x
  rw [queuedParent]
  by_cases hmem : x ∈ s.agenda.ids
  · rw [List.count_filter (p := (· ∈ s.agenda.ids)) (decide_eq_true hmem)]
    omega
  · rw [List.count_eq_zero_of_not_mem hmem] at hq
    have hone : (s.derivation.parent? node).toList.count x ≤ 1 := by
      cases s.derivation.parent? node with
      | none => exact Nat.zero_le _
      | some parent => exact List.count_le_length
    omega

/-- **No effect adds an occurrence of a node that is on the agenda**, but for a parent that is put
there again. -/
theorem BoundsCopies.applyTo {again : List NodeId} (h : s.BoundsCopies again)
    (hs : s.derivation.IsForest) (hagenda : s.HoldsAgenda) {e : Effect} (he : e.Arises s) :
    (e.applyTo s).BoundsCopies (again ++ e.requeued s) := by
  intro x
  rw [List.count_append]
  cases e with
  | nothing => exact h x
  | setGrammar grammar => exact h x
  | newRoot label =>
    refine (s.agenda.count_append_le (some s.derivation.next) x).trans ?_
    rw [Option.toList_some]
    by_cases hx : x ∈ [(s.derivation.next : NodeId)]
    · have hnew : x ∈ s.derivation.newIds 1 := by
        rw [Derivation.newIds_succ none label]
        exact List.mem_cons.2 (Or.inl (List.mem_singleton.1 hx))
      rw [List.count_eq_zero_of_not_mem (hagenda.notMem_of_mem_newIds hs hnew), Nat.zero_add]
      exact List.count_le_length.trans (Nat.le_add_left _ _)
    · rw [List.count_eq_zero_of_not_mem hx]
      exact h x
  | link parent child => exact (s.agenda.count_remove_le parent x).trans (h x)
  | unlink node => exact count_append_parent_le (Nat.le_refl _) (h x)
  | delete node => exact count_append_parent_le (s.agenda.count_restrict_le _ x) (h x)
  | makeCurrent node => exact Agenda.count_bringToFront_le (h x)
  | refill =>
    have hnodup : s.derivation.incomplete.Nodup :=
      hs.nodup.sublist (List.filter_sublist.map Node.id)
    exact (List.nodup_iff_count_le_one.1 hnodup x).trans (Nat.le_add_left _ _)
  | skip => exact (List.tail_sublist _).count_le x |>.trans (h x)
  | beginSelection selection => exact h x
  | endSelection => exact h x
  | expand node alternative =>
    refine Agenda.count_prepend_le ((Derivation.nodup_newIds _).sublist List.filter_sublist)
      (fun y hy hmem => ?_) ((s.agenda.count_remove_le node x).trans (h x))
    exact hagenda.notMem_of_mem_newIds hs (List.mem_of_mem_filter hy)
      (Agenda.mem_of_mem_remove hmem)
  | growPath node chain =>
    have hnew := s.derivation.unfinished_sublist node chain
    refine (Agenda.count_remove_le _ node x).trans ?_
    exact Agenda.count_prepend_le ((Derivation.nodup_newIds _).sublist hnew)
      (fun y hy => hagenda.notMem_of_mem_newIds hs (hnew.subset hy)) (h x)

theorem HoldsAgenda.after (h : s.HoldsAgenda) (hs : s.derivation.IsForest) (a : Action) :
    (a.after s).HoldsAgenda := by
  obtain ⟨e, he, hafter⟩ := a.exists_effect_after hs
  rw [hafter]
  exact h.applyTo hs he

end Session

/-! ## Lines -/

/-- The nodes that a command puts on the agenda although they are there. -/
def Command.requeued (s : Session) : Command → List NodeId
  | .unlink node => s.queuedParent node
  | .delete node => s.queuedParent node
  | _ => []

theorem Command.AsksFor.requeued_eq {s : Session} {c : Command} {e : Session.Effect}
    (h : c.AsksFor s e) : e.requeued s = c.requeued s := by
  cases c with
  | newRoot rule => obtain ⟨label, rfl⟩ := h; rfl
  | beginSelection node => obtain ⟨selection, rfl⟩ := h; rfl
  | growPath pattern node => obtain ⟨id, chain, rfl, -⟩ := h; rfl
  | choose position => obtain ⟨node, a, rfl, -⟩ := h; rfl
  | chooseMatching pattern => obtain ⟨node, a, position, rfl, -⟩ := h; rfl
  | _ => cases h; rfl

namespace Session

variable {s : Session}

/-- The nodes that a line puts on the agenda although they are there. -/
def requeuedBy (s : Session) (text : Text) : List NodeId :=
  match Command.read text s.isSelecting with
  | .ok c => c.requeued s
  | .error _ => []

/-- The nodes that some lines put on the agenda although they are there. -/
def requeued : List Text → Session → List NodeId
  | [], _ => []
  | line :: lines, s => s.requeuedBy line ++ requeued lines ((Action.run line).after s)

theorem addsUp_requeued : AddsUp requeuedBy requeued := ⟨fun _ => rfl, fun _ _ _ => rfl⟩

theorem BoundsCopies.mono {again : List NodeId} (h : s.BoundsCopies again) (more : List NodeId) :
    s.BoundsCopies (again ++ more) := fun x => by
  rw [List.count_append]
  exact (h x).trans (by omega)

theorem BoundsCopies.run {again : List NodeId} (h : s.BoundsCopies again)
    (hs : s.derivation.IsForest) (hagenda : s.HoldsAgenda) (text : Text) :
    ((Action.run text).after s).BoundsCopies (again ++ s.requeuedBy text) := by
  have hkept := h.mono (s.requeuedBy text)
  refine holds_after_run (P := fun s' => s'.BoundsCopies (again ++ s.requeuedBy text)) hs hkept
    hkept ?_
  intro output c e _ hread hasks harises
  have hbounds := h.applyTo hs hagenda harises
  rw [hasks.requeued_eq] at hbounds
  rwa [requeuedBy, hread]

theorem boundsCopies_afterAll {again : List NodeId} (h : s.BoundsCopies again)
    (hs : s.derivation.IsForest) (hagenda : s.HoldsAgenda) (lines : List Text) :
    (afterAll (lines.map .run) s).BoundsCopies (again ++ requeued lines s) :=
  addsUp_requeued.holds_afterAll (fun _ s => s.HoldsAgenda)
    (fun line _ _ _ hs hagenda h => ⟨hagenda.after hs (.run line), h.run hs hagenda line⟩)
    hs hagenda h

/-- **Work on a node takes it off the agenda, unless it was put there again.** After any lines, an
edit that works on a node takes one of its occurrences away, so that it is still on the agenda just
when it was there twice; and it is there at most once more than lines have put it back as a former
parent while it was on the agenda. -/
theorem agenda_after_work (grammar : Text) (lines : List Text) {node : NodeId} {s' : Session}
    (h : (afterAll (lines.map .run) (start grammar)).WorksOn node s') :
    let s := afterAll (lines.map .run) (start grammar)
    s'.agenda.ids.count node = s.agenda.ids.count node - 1 ∧
      (node ∈ s'.agenda.ids ↔ 2 ≤ s.agenda.ids.count node) ∧
      s.agenda.ids.count node ≤ (requeued lines (start grammar)).count node + 1 ∧
      (node ∉ requeued lines (start grammar) → node ∉ s'.agenda.ids) := by
  intro s
  have hs : s.derivation.IsForest :=
    isForest_derivation_afterAll Derivation.isForest_empty (lines.map .run)
  have hcount := h.count_agenda hs
  have hnone : (start grammar).BoundsCopies [] := fun _ => Nat.zero_le _
  have hbound := boundsCopies_afterAll hnone Derivation.isForest_empty
    (fun _ hmem => absurd hmem List.not_mem_nil) lines node
  rw [List.nil_append] at hbound
  have hstays : node ∈ s'.agenda.ids ↔ 2 ≤ s.agenda.ids.count node := by
    rw [← List.count_pos_iff, hcount]
    exact ⟨fun hpos => by omega, fun hle => by omega⟩
  refine ⟨hcount, hstays, hbound, fun hnever hmem => ?_⟩
  have htwice := hstays.1 hmem
  rw [List.count_eq_zero_of_not_mem hnever] at hbound
  exact absurd (htwice.trans hbound) (by decide)

/-- A grammar whose start has two children. -/
def twoChildrenGrammar : Text := "<s> ::= <a> <b>\n<a> ::= x\n<b> ::= y".toList

/-- Lines that expand a root and take both children away from it. -/
def twoUnlinksLines : List Text :=
  ["+1".toList, "0".toList, "1".toList, "~1".toList, "~2".toList]

/-- The root is still on the agenda when it gets one of the children back. -/
theorem exists_link_after_twoUnlinks :
    ∃ s', link 0 1 (afterAll (twoUnlinksLines.map .run) (start twoChildrenGrammar)) = .ok () s' ∧
      s'.agenda.ids = [1, 2, 0] := by
  have hids : (match link 0 1 (afterAll (twoUnlinksLines.map .run) (start twoChildrenGrammar)) with
      | .ok _ s' => s'.agenda.ids
      | .error _ _ => []) = [1, 2, 0] := by decide +kernel
  cases hlink : link 0 1 (afterAll (twoUnlinksLines.map .run) (start twoChildrenGrammar)) with
  | ok _ s' =>
    rw [hlink] at hids
    exact ⟨s', rfl, hids⟩
  | error e s' =>
    rw [hlink] at hids
    cases hids

/-- The second child puts the root on the agenda again, and the link takes it off once. -/
theorem agenda_after_work_of_twoUnlinksLines :
    let s := afterAll (twoUnlinksLines.map .run) (start twoChildrenGrammar)
    ∃ s', s.WorksOn 0 s' ∧ s.agenda.ids = [1, 2, 0, 0] ∧
      requeued twoUnlinksLines (start twoChildrenGrammar) = [0] ∧ 0 ∈ s'.agenda.ids := by
  intro s
  have hagenda : s.agenda.ids = [1, 2, 0, 0] := by decide +kernel
  have hrequeued : requeued twoUnlinksLines (start twoChildrenGrammar) = [0] := by decide +kernel
  obtain ⟨s', hlink, -⟩ := exists_link_after_twoUnlinks
  have hworks : s.WorksOn 0 s' := .link hlink
  have hstays := (agenda_after_work twoChildrenGrammar twoUnlinksLines hworks).2.1
  have hagenda' : (afterAll (twoUnlinksLines.map .run) (start twoChildrenGrammar)).agenda.ids =
      [1, 2, 0, 0] := hagenda
  rw [hagenda'] at hstays
  exact ⟨s', hworks, hagenda, hrequeued, hstays.2 (by decide)⟩

/-- Without the exception it is not true: such a root stays on the agenda. -/
theorem not_forall_notMem_agenda :
    ¬ ∀ (grammar : Text) (lines : List Text) (node : NodeId) (s' : Session),
      (afterAll (lines.map .run) (start grammar)).WorksOn node s' → node ∉ s'.agenda.ids := by
  intro h
  obtain ⟨s', hlink, hids⟩ := exists_link_after_twoUnlinks
  refine h twoChildrenGrammar twoUnlinksLines 0 s' (.link hlink) ?_
  rw [hids]
  decide

end Session

end GrammarTree
