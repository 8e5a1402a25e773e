import GrammarTree.Proofs.Derivation.Drawing
import GrammarTree.Proofs.Derivation.Path
import GrammarTree.Proofs.Grammar.Merged
import GrammarTree.Proofs.Grammar.RoundTrip
import GrammarTree.Proofs.Session.Effect

/-!
# The agenda and the derivation

The agenda does not watch the derivation: a node that is gone stays on it until the agenda is
restricted. This file proves that in a session nothing on the agenda is ever gone, one effect at a
time, and that a drawing therefore boxes the current node whenever there is one.

Only a deletion takes nodes out of the derivation, and it is the one edit that restricts the agenda
afterwards. All other effects add numbers to the agenda that belong to nodes, either because the
edit has checked them or because it has just created them. A parent that is put back is the parent
of a node in a forest, and so a node itself.

What is here:

* the numbers on an agenda after each of its changes;
* `Session.HoldsAgenda`, an agenda of nodes that are there;
* `Session.IsOneLined`, a session whose texts do not run over to the next line;
* `Session.Reachable.boxes_current`, what both of them say about drawings.
-/

set_option autoImplicit false

namespace GrammarTree

/-! ## Numbers on an agenda -/

namespace Agenda

variable {q : Agenda} {x : NodeId}

theorem mem_prepend {ids : List NodeId} : x ∈ (q.prepend ids).ids ↔ x ∈ ids ∨ x ∈ q.ids :=
  List.mem_append

/-- Only numbers that nodes can have are added. -/
theorem mem_append {id : Option NodeId} :
    x ∈ (q.append id).ids ↔ x ∈ q.ids ∨ (id = some x ∧ 0 ≤ x) := by
  cases id with
  | none => simp [append]
  | some id =>
    simp only [append, Option.some.injEq]
    split
    · rename_i hnegative
      refine ⟨Or.inl, ?_⟩
      rintro (hx | ⟨rfl, hx⟩)
      · exact hx
      · exact absurd hx (Int.not_le.2 hnegative)
    · rename_i hnatural
      rw [List.mem_append, List.mem_singleton]
      refine or_congr_right ⟨?_, fun hx => hx.1.symm⟩
      rintro rfl
      exact ⟨rfl, Int.not_lt.1 hnatural⟩

theorem mem_of_mem_remove {id : NodeId} (h : x ∈ (q.remove id).ids) : x ∈ q.ids :=
  List.mem_of_mem_erase h

theorem mem_remove_of_ne {id : NodeId} (hne : x ≠ id) : x ∈ (q.remove id).ids ↔ x ∈ q.ids :=
  List.mem_erase_of_ne hne

theorem mem_bringToFront {id : NodeId} :
    x ∈ (q.bringToFront id).ids ↔ x = id ∨ x ∈ q.ids := by
  rw [bringToFront, List.mem_cons]
  by_cases hx : x = id
  · simp [hx]
  · rw [List.mem_erase_of_ne hx]

theorem mem_of_mem_dropCurrent (h : x ∈ q.dropCurrent.ids) : x ∈ q.ids := List.mem_of_mem_tail h

theorem mem_restrict {g : Derivation} :
    x ∈ (q.restrict g).ids ↔ x ∈ q.ids ∧ g.contains x = true :=
  List.mem_filter

end Agenda

namespace Session

variable {s : Session}

/-! ## The agenda holds nodes that are there -/

/-- Whether all numbers on the agenda are numbers of nodes. -/
def HoldsAgenda (s : Session) : Prop := ∀ id ∈ s.agenda.ids, s.derivation.contains id = true

/-- **No effect leaves a node on the agenda that is gone.** -/
theorem HoldsAgenda.applyTo (h : s.HoldsAgenda) (hs : s.derivation.IsForest) {e : Effect}
    (he : e.Arises s) : (e.applyTo s).HoldsAgenda := by
  intro x hx
  cases e with
  | nothing => exact h x hx
  | setGrammar grammar => exact h x hx
  | newRoot label =>
    rcases Agenda.mem_append.1 hx with hx | ⟨hnew, -⟩
    · exact (hs.contains_growAt none label x).2 (Or.inr (h x hx))
    · exact (hs.contains_growAt none label x).2 (Or.inl (Option.some.inj hnew).symm)
  | link parent child =>
    rw [Effect.applyTo, Derivation.contains_setParent]
    exact h x (Agenda.mem_of_mem_remove hx)
  | unlink node =>
    rw [Effect.applyTo, Derivation.contains_setParent]
    rcases Agenda.mem_append.1 hx with hx | ⟨hparent, -⟩
    · exact h x hx
    · exact hs.contains_parent hparent
  | delete node =>
    rcases Agenda.mem_append.1 hx with hx | ⟨hparent, -⟩
    · exact (Agenda.mem_restrict.1 hx).2
    · -- The parent is above the deleted node, so it does not go with it.
      exact (Derivation.contains_withoutSubtree hs he).2
        ⟨hs.contains_parent hparent, hs.not_descends hparent⟩
  | makeCurrent node =>
    rcases Agenda.mem_bringToFront.1 hx with rfl | hx
    · exact he
    · exact h x hx
  | refill => exact hs.contains_of_mem_incomplete hx
  | skip => exact h x (Agenda.mem_of_mem_dropCurrent hx)
  | beginSelection selection => exact h x hx
  | endSelection => exact h x hx
  | expand node alternative =>
    rcases Agenda.mem_prepend.1 hx with hx | hx
    · exact Derivation.contains_of_isPlaceholder (List.mem_filter.1 hx).2
    · exact (Derivation.extends_withChildren node _).contains (h x (Agenda.mem_of_mem_remove hx))
  | growPath node chain =>
    rcases Agenda.mem_prepend.1 (Agenda.mem_of_mem_remove hx) with hx | hx
    · exact Derivation.contains_of_isPlaceholder (List.mem_filter.1 hx).2
    · exact (s.derivation.extends_withPath node chain).contains (h x hx)

theorem Reachable.holdsAgenda (hs : s.Reachable) : s.HoldsAgenda :=
  hs.induction (fun _ _ h => absurd h List.not_mem_nil) fun _ _ hforest he h =>
    h.applyTo hforest he

/-! ## No text of a session runs over its line

A drawing is read row by row, so that a label with a line feed could forge a row. Labels come from
symbols and tokens, and these come from blocks, in which the line feeds are gone. The alternatives
on offer have to be part of the invariant, since a selection keeps its rule when the grammar text
changes. -/

/-- Whether the labels of the nodes and the alternatives on offer are free of line feeds. -/
structure IsOneLined (s : Session) : Prop where
  /-- The labels are. -/
  labels : s.derivation.AllLabels fun label => '\n' ∉ label
  /-- The alternatives on offer are. -/
  alternatives : ∀ a ∈ s.alternatives, '\n' ∉ a

theorem newline_notMem_symbol {rule : Rule} (h : rule ∈ s.rules) : '\n' ∉ rule.symbol :=
  (Grammar.writable_of_mem_rules h).symbol.newline

theorem newline_notMem_alternative {rule : Rule} (h : rule ∈ s.rules) {a : Text}
    (ha : a ∈ rule.alternatives) : '\n' ∉ a :=
  ((Grammar.writable_of_mem_rules h).alternatives a ha).1.newline

theorem newline_notMem_tokens {a : Text} (h : '\n' ∉ a) :
    ∀ token ∈ Alternative.tokens a, '\n' ∉ token :=
  fun _ htoken hmem => h (Alternative.subset_of_mem_tokens htoken hmem)

theorem IsOneLined.applyTo (h : s.IsOneLined) {e : Effect} (he : e.Arises s) :
    (e.applyTo s).IsOneLined := by
  obtain ⟨hlabels, halternatives⟩ := h
  cases e with
  | nothing => exact ⟨hlabels, halternatives⟩
  | setGrammar grammar => exact ⟨hlabels, halternatives⟩
  | newRoot label =>
    obtain ⟨rule, hrule, rfl⟩ := he
    exact ⟨hlabels.growAt (newline_notMem_symbol hrule) none, halternatives⟩
  | link parent child => exact ⟨hlabels.setParent child _, halternatives⟩
  | unlink node => exact ⟨hlabels.setParent node _, halternatives⟩
  | delete node => exact ⟨hlabels.withoutSubtree node, halternatives⟩
  | makeCurrent node => exact ⟨hlabels, halternatives⟩
  | refill => exact ⟨hlabels, halternatives⟩
  | skip => exact ⟨hlabels, halternatives⟩
  | beginSelection selection =>
    obtain ⟨label, -, hrule⟩ := he
    refine ⟨hlabels, fun a ha => ?_⟩
    obtain ⟨rule, hmem, hwritten⟩ := Grammar.mem_alternatives_of_merged? hrule ha
    exact newline_notMem_alternative hmem hwritten
  | endSelection => exact ⟨hlabels, fun a ha => absurd ha List.not_mem_nil⟩
  | expand node alternative =>
    obtain ⟨-, rule, hselection, ha⟩ := he
    have hoffered : alternative ∈ s.alternatives := by
      rwa [Session.alternatives, hselection]
    have htokens := newline_notMem_tokens (halternatives alternative hoffered)
    exact ⟨hlabels.withChildren htokens node, fun a ha => absurd ha List.not_mem_nil⟩
  | growPath node chain =>
    obtain ⟨pattern, hchain⟩ := he
    obtain ⟨label, -, hsearch, -⟩ := Derivation.chainFrom_eq_ok hchain
    obtain ⟨rule, hrule, hwritten⟩ := exists_rule_of_alternative hsearch
    have htokens := newline_notMem_tokens (newline_notMem_alternative hrule hwritten)
    refine ⟨hlabels.withPath (fun l hl => ?_) htokens node, halternatives⟩
    obtain ⟨rule, hrule, rfl⟩ := exists_rule_of_mem_intermediates hsearch l hl
    exact newline_notMem_symbol hrule

theorem Reachable.isOneLined (hs : s.Reachable) : s.IsOneLined :=
  hs.induction (fun _ => ⟨.empty, fun _ h => absurd h List.not_mem_nil⟩) fun _ _ _ he h =>
    h.applyTo he

/-! ## Drawings -/

theorem boxedRows_draw_of_current? (hs : s.Reachable) {mode : DrawingMode} (hmode : mode ≠ .plain) :
    boxedRows (s.draw mode) = s.agenda.current?.toList.map
      (s.derivation.nodeLine (.ofMode mode s.agenda.current?)) := by
  have hcurrent : s.agenda.current?.toList.filter s.derivation.contains =
      s.agenda.current?.toList :=
    List.filter_eq_self.2 fun id hid =>
      hs.holdsAgenda id (List.mem_of_head? (Option.mem_toList.1 hid))
  have hbox := Derivation.boxedRows_draw hs.isForest_derivation.nodup hs.isOneLined.labels
    (.ofMode mode s.agenda.current?)
  cases mode with
  | ids => exact hbox.trans (congrArg (List.map _) hcurrent)
  | full => exact hbox.trans (congrArg (List.map _) hcurrent)
  | plain => exact absurd rfl hmode

/-- **A drawing boxes the current node, and no other.** Every number on the agenda belongs to a node
that is there, so the box is missing only when the agenda is empty. -/
theorem Reachable.boxes_current (hs : s.Reachable) :
    (∀ id ∈ s.agenda.ids, s.derivation.contains id = true) ∧
      ∀ mode, mode ≠ .plain →
        (s.agenda.ids = [] → boxedRows (s.draw mode) = []) ∧
        ∀ current rest, s.agenda.ids = current :: rest →
          boxedRows (s.draw mode) =
            [s.derivation.nodeLine (.ofMode mode (some current)) current] := by
  refine ⟨hs.holdsAgenda, fun mode hmode => ⟨fun hnil => ?_, fun current rest hcons => ?_⟩⟩
  · have hnone : s.agenda.current? = none := by rw [Agenda.current?, hnil, List.head?_nil]
    rw [boxedRows_draw_of_current? hs hmode, hnone]
    rfl
  · have hsome : s.agenda.current? = some current := by
      rw [Agenda.current?, hcons, List.head?_cons]
    rw [boxedRows_draw_of_current? hs hmode, hsome]
    rfl

/-- The parent of a deleted node stays, even twice, and it is drawn in a box. -/
theorem boxes_current_of_deleted_child :
    let s := afterAll [.newRoot 1, .beginSelection none, .choose none, .makeCurrent 0, .delete 1]
      (start "<s> ::= <a> x\n<a> ::= y".toList)
    s.Reachable ∧ s.agenda.ids = [0, 0] ∧
      boxedRows (s.draw .ids) = ["0 [label=\"0: <s>\" shape=box]".toList] := by
  intro s
  have hs : s.Reachable := ⟨_, _, rfl⟩
  have hids : s.agenda.ids = [0, 0] := by decide +kernel
  have hline : s.derivation.nodeLine (.ofMode .ids (some 0)) 0 =
      "0 [label=\"0: <s>\" shape=box]".toList := by decide +kernel
  refine ⟨hs, hids, ?_⟩
  rw [← hline]
  exact (hs.boxes_current.2 .ids (by decide)).2 0 [0] hids

end Session

end GrammarTree
