import GrammarTree.Proofs.Derivation.Deletion
import GrammarTree.Proofs.Session.Agenda
import GrammarTree.Proofs.Session.Selecting

/-!
# No work is lost

The agenda is kept up to date by every edit with a rule of its own. This file asks whether an
incomplete node can be missing from it, in a session that is driven by lines. Skipping the current
node takes it off the agenda, and an alternative without tokens leaves a node incomplete that has
had its turn. Apart from these, the one way to lose a node is a link that takes the only child away
from its former parent: unlike the two edits that separate nodes, it does not put the former parent
back on the agenda.

So there are two kinds of lines to be told apart. Lines that drop work on purpose are excluded by a
hypothesis, which is computed along the lines. Links are not excluded, and the nodes that they leave
without children are collected in a list. The invariant says that every incomplete node is on the
agenda or in the list.

What is here:

* `Derivation.mem_incomplete_setParent`: what another parent does to the incomplete nodes;
* `Session.keepsWork`, the lines that drop no work on purpose, and `Session.bereft`, the nodes whose
  only child was linked away;
* `Session.Covers`, the invariant of the effects, and `Session.covers_afterAll`;
* `Session.incomplete_on_agenda_or_bereft`, all of it for every history of lines.
-/

set_option autoImplicit false

namespace GrammarTree

/-! ## Incomplete nodes after a link -/

namespace Derivation

variable {g : Derivation}

/-- Another parent takes that parent off the incomplete nodes, and makes the former parent one of
them when it loses its only child. -/
theorem mem_incomplete_setParent (hids : g.ids.Nodup) {id : NodeId} (hid : g.contains id = true)
    (parent : Option NodeId) (x : NodeId) :
    x ∈ (g.setParent id parent).incomplete ↔ parent ≠ some x ∧
      (x ∈ g.incomplete ∨
        (g.parent? id = some x ∧ g.isPlaceholder x = true ∧ g.children x = [id])) := by
  rw [mem_incomplete (by rwa [ids_setParent]), mem_incomplete hids, children_eq_singleton_iff hids]
  simp only [isPlaceholder_eq, label?_setParent, parent?_setParent hid]
  constructor
  · rintro ⟨hplaceholder, hchildless⟩
    have hother : ∀ child, child ≠ id → g.parent? child ≠ some x := by
      intro child hne
      have hchild := hchildless child
      rwa [if_neg hne] at hchild
    have hnew := hchildless id
    rw [if_pos rfl] at hnew
    refine ⟨hnew, ?_⟩
    by_cases hold : g.parent? id = some x
    · refine Or.inr ⟨hold, hplaceholder, fun child => ⟨fun hchild => ?_, fun heq => heq ▸ hold⟩⟩
      by_contra hne
      exact hother child hne hchild
    · refine Or.inl ⟨hplaceholder, fun child hchild => ?_⟩
      by_cases heq : child = id
      · exact hold (heq ▸ hchild)
      · exact hother child heq hchild
  · rintro ⟨hnew, ⟨hplaceholder, hchildless⟩ | ⟨-, hplaceholder, honly⟩⟩
    · refine ⟨hplaceholder, fun child => ?_⟩
      split
      · exact hnew
      · exact hchildless child
    · refine ⟨hplaceholder, fun child => ?_⟩
      split
      · exact hnew
      · rename_i hne
        exact fun hchild => hne ((honly child).1 hchild)

/-- The former parent that a link leaves without children. -/
def bereftBy (g : Derivation) (parent child : NodeId) : List NodeId :=
  (g.parent? child).toList.filter fun former => former ≠ parent ∧ g.children former = [child]

theorem mem_bereftBy {parent child x : NodeId} :
    x ∈ g.bereftBy parent child ↔
      g.parent? child = some x ∧ x ≠ parent ∧ g.children x = [child] := by
  rw [bereftBy, List.mem_filter, Option.mem_toList, decide_eq_true_eq]

end Derivation

namespace Session

variable {s : Session}

/-! ## The invariant of the effects

Each effect is looked at twice: which nodes it makes incomplete, and which it takes off the agenda.
A node that it takes off is gone or has got children, and is incomplete no more. -/

/-- Whether an effect takes a node off the agenda that it leaves without children. -/
def Effect.dropsWork : Effect → Bool
  | .skip => true
  | .expand _ alternative => (Alternative.tokens alternative).isEmpty
  | .growPath _ chain => (Alternative.tokens chain.alternative).isEmpty
  | _ => false

/-- The nodes that an effect leaves without children and does not put on the agenda. -/
def Effect.bereft : Effect → Session → List NodeId
  | .link parent child, s => s.derivation.bereftBy parent child
  | _, _ => []

/-- Whether every incomplete node is on the agenda, but for some that are given up. -/
def Covers (s : Session) (lost : List NodeId) : Prop :=
  ∀ x ∈ s.derivation.incomplete, x ∈ s.agenda.ids ∨ x ∈ lost

/-- **An effect that drops no work loses no node**, but for those that a link leaves without
children. -/
theorem Covers.applyTo {lost : List NodeId} (h : s.Covers lost) (hs : s.derivation.IsForest)
    {e : Effect} (he : e.Arises s) (hkeeps : e.dropsWork = false) :
    (e.applyTo s).Covers (lost ++ e.bereft s) := by
  have hids := hs.nodup
  intro x hx
  rw [List.mem_append, ← or_assoc]
  cases e with
  | nothing => exact Or.inl (h x hx)
  | setGrammar grammar => exact Or.inl (h x hx)
  | newRoot label =>
    refine Or.inl ?_
    rcases (hs.mem_incomplete_growAt (fun _ hp => by cases hp) label x).1 hx with ⟨hx, -⟩ | ⟨rfl, -⟩
    · exact (h x hx).imp_left fun hmem => Agenda.mem_append.2 (Or.inl hmem)
    · exact Or.inl (Agenda.mem_append.2 (Or.inr ⟨rfl, Int.natCast_nonneg _⟩))
  | link parent child =>
    obtain ⟨hnew, hx⟩ := (Derivation.mem_incomplete_setParent hids he.2.1 (some parent) x).1 hx
    have hne : x ≠ parent := fun heq => hnew (heq ▸ rfl)
    rcases hx with hx | ⟨hparent, -, honly⟩
    · exact Or.inl ((h x hx).imp_left (Agenda.mem_remove_of_ne hne).2)
    · exact Or.inr (Derivation.mem_bereftBy.2 ⟨hparent, hne, honly⟩)
  | unlink node =>
    refine Or.inl ?_
    rcases ((Derivation.mem_incomplete_setParent hids he none x).1 hx).2 with hx | ⟨hparent, -, -⟩
    · exact (h x hx).imp_left fun hmem => Agenda.mem_append.2 (Or.inl hmem)
    · have hnatural := (hs.bounded x (hs.contains_parent hparent)).1
      exact Or.inl (Agenda.mem_append.2 (Or.inr ⟨hparent, hnatural⟩))
  | delete node =>
    refine Or.inl ?_
    have hgone : (s.derivation.withoutSubtree node).contains x = true :=
      (hs.withoutSubtree he).contains_of_mem_incomplete hx
    rcases (Derivation.mem_incomplete_withoutSubtree hs he x).1 hx with ⟨hx, -⟩ | ⟨hparent, -, -⟩
    · exact (h x hx).imp_left fun hmem =>
        Agenda.mem_append.2 (Or.inl (Agenda.mem_restrict.2 ⟨hmem, hgone⟩))
    · have hnatural := (hs.bounded x (hs.contains_parent hparent)).1
      exact Or.inl (Agenda.mem_append.2 (Or.inr ⟨hparent, hnatural⟩))
  | makeCurrent node =>
    exact Or.inl ((h x hx).imp_left fun hmem => Agenda.mem_bringToFront.2 (Or.inr hmem))
  | refill => exact Or.inl (Or.inl hx)
  | skip => cases hkeeps
  | beginSelection selection => exact Or.inl (h x hx)
  | endSelection => exact Or.inl (h x hx)
  | expand node alternative =>
    refine Or.inl ?_
    have htokens : Alternative.tokens alternative ≠ [] :=
      List.isEmpty_eq_false_iff.1 hkeeps
    rcases (hs.mem_incomplete_withChildren he.1 _ x).1 hx with ⟨hx, hne⟩ | hx
    · exact (h x hx).imp_left fun hmem =>
        Agenda.mem_prepend.2 (Or.inr ((Agenda.mem_remove_of_ne (hne htokens)).2 hmem))
    · exact Or.inl (Agenda.mem_prepend.2 (Or.inl hx))
  | growPath node chain =>
    refine Or.inl ?_
    obtain ⟨pattern, hchain⟩ := he
    obtain ⟨label, -, hsearch, -⟩ := Derivation.chainFrom_eq_ok hchain
    have hnode := Derivation.contains_of_chainFrom hchain
    have hadds := hs.addsPath_withPath hnode (isPlaceholder_of_mem_intermediates hsearch)
    have hleaves : (s.derivation.growthOf node chain).leaves ≠ [] := fun hnil =>
      List.isEmpty_eq_false_iff.1 hkeeps
        (List.length_eq_zero_iff.1 (Derivation.newIds_eq_nil.1 hnil))
    have hnew : ∀ y ∈ (s.derivation.growthOf node chain).unfinished, y ≠ node := by
      rintro y hy rfl
      have hold := hs.contains_eq_false_of_mem_newIds (hadds.numbers ▸
        List.mem_append_right _ (List.mem_of_mem_filter (hadds.unfinished_eq ▸ hy)))
      exact Bool.false_ne_true (hold.symm.trans hnode)
    rcases (hadds.incomplete_of_leaves hleaves x).1 hx with ⟨hx, hne⟩ | hx
    · exact (h x hx).imp_left fun hmem =>
        (Agenda.mem_remove_of_ne hne).2 (Agenda.mem_prepend.2 (Or.inr hmem))
    · exact Or.inl ((Agenda.mem_remove_of_ne (hnew x hx)).2 (Agenda.mem_prepend.2 (Or.inl hx)))

end Session

/-! ## Lines

Whether a line drops work, and whom it leaves without children, is said by the command that it is
read as. The effect of the line says the same, which ties the lists to what really happens. -/

/-- The alternative that a command expands when it succeeds. -/
def Command.alternative? (s : Session) : Command → Option Text
  | .choose position => s.offeredAt? (position.map Int.ofNat)
  | .chooseMatching pattern =>
    (s.positionOf? pattern).bind fun position => s.offeredAt? (some position)
  | .growPath pattern node =>
    match Session.growPath (node.map Int.ofNat) pattern s with
    | .ok growth _ => some growth.chain.alternative
    | .error _ _ => none
  | _ => none

/-- Whether a command skips the current node or expands an alternative without tokens. -/
def Command.dropsWork (s : Session) (c : Command) : Bool :=
  c = .skip || (c.alternative? s).any fun a => (Alternative.tokens a).isEmpty

/-- The nodes that a command leaves without children when it succeeds. -/
def Command.bereft (s : Session) : Command → List NodeId
  | .link parent child => s.derivation.bereftBy parent child
  | _ => []

/-- What is dropped and who is left without children can be told from the command. -/
theorem Command.AsksFor.work_eq {s : Session} {c : Command} {e : Session.Effect}
    (h : c.AsksFor s e) : e.dropsWork = c.dropsWork s ∧ e.bereft s = c.bereft s := by
  cases c with
  | newRoot rule =>
    obtain ⟨label, rfl⟩ := h
    exact ⟨rfl, rfl⟩
  | beginSelection node =>
    obtain ⟨selection, rfl⟩ := h
    exact ⟨rfl, rfl⟩
  | growPath pattern node =>
    obtain ⟨id, chain, rfl, growth, s', hgrow, rfl⟩ := h
    exact ⟨by simp [Command.dropsWork, Command.alternative?, hgrow, Session.Effect.dropsWork], rfl⟩
  | choose position =>
    obtain ⟨node, a, rfl, ha⟩ := h
    exact ⟨by simp [Command.dropsWork, Command.alternative?, ha, Session.Effect.dropsWork], rfl⟩
  | chooseMatching pattern =>
    obtain ⟨node, a, position, rfl, hposition, ha⟩ := h
    exact ⟨by simp [Command.dropsWork, Command.alternative?, hposition, ha,
      Session.Effect.dropsWork], rfl⟩
  | draw mode => cases h; exact ⟨rfl, rfl⟩
  | unlink node => cases h; exact ⟨rfl, rfl⟩
  | makeCurrent node => cases h; exact ⟨rfl, rfl⟩
  | delete node => cases h; exact ⟨rfl, rfl⟩
  | refill => cases h; exact ⟨rfl, rfl⟩
  | skip => cases h; exact ⟨rfl, rfl⟩
  | link parent child => cases h; exact ⟨rfl, rfl⟩
  | endSelection => cases h; exact ⟨rfl, rfl⟩

namespace Session

variable {s : Session}

/-- Whether a line is read as a command that drops work. -/
def dropsWork (s : Session) (text : Text) : Bool :=
  match Command.read text s.isSelecting with
  | .ok c => c.dropsWork s
  | .error _ => false

/-- The nodes that a line leaves without children, if it succeeds. -/
def bereftAfter (s : Session) (text : Text) : List NodeId :=
  match Command.read text s.isSelecting, run text s with
  | .ok c, .ok _ _ => c.bereft s
  | _, _ => []

/-- Whether none of some lines drops work. -/
def keepsWork : List Text → Session → Bool
  | [], _ => true
  | line :: lines, s => !s.dropsWork line && keepsWork lines ((Action.run line).after s)

/-- The nodes that links among some lines leave without children. -/
def bereft : List Text → Session → List NodeId
  | [], _ => []
  | line :: lines, s => s.bereftAfter line ++ bereft lines ((Action.run line).after s)

theorem addsUp_bereft : AddsUp bereftAfter bereft := ⟨fun _ => rfl, fun _ _ _ => rfl⟩

theorem Covers.mono {lost : List NodeId} (h : s.Covers lost) (more : List NodeId) :
    s.Covers (lost ++ more) := fun x hx => (h x hx).imp_right (List.mem_append_left more)

theorem Covers.run {lost : List NodeId} (h : s.Covers lost) (hs : s.derivation.IsForest)
    {text : Text} (hkeeps : s.dropsWork text = false) :
    ((Action.run text).after s).Covers (lost ++ s.bereftAfter text) := by
  have hkept := h.mono (s.bereftAfter text)
  refine holds_after_run (P := fun s' => s'.Covers (lost ++ s.bereftAfter text)) hs hkept hkept ?_
  intro output c e hrun hread hasks harises
  obtain ⟨hdrops, hbereft⟩ := hasks.work_eq
  rw [dropsWork, hread] at hkeeps
  have hcovers := h.applyTo hs harises (hdrops.trans hkeeps)
  rw [hbereft] at hcovers
  rwa [bereftAfter, hrun, hread]

theorem covers_afterAll {lost : List NodeId} (h : s.Covers lost) (hs : s.derivation.IsForest)
    {lines : List Text} (hkeeps : keepsWork lines s = true) :
    (afterAll (lines.map .run) s).Covers (lost ++ bereft lines s) := by
  refine addsUp_bereft.holds_afterAll (fun lines s => keepsWork lines s = true)
    (fun line lines s lost hs hkeeps h => ?_) hs hkeeps h
  rw [keepsWork, Bool.and_eq_true, Bool.not_eq_true'] at hkeeps
  exact ⟨hkeeps.2, h.run hs hkeeps.1⟩

/-- **No work is lost but by links.** After lines that do not skip a node and do not expand an
alternative without tokens, an incomplete node that is not on the agenda is one whose only child was
linked to another node. -/
theorem incomplete_on_agenda_or_bereft (grammar : Text) (lines : List Text)
    (hkeeps : keepsWork lines (start grammar) = true) :
    let s := afterAll (lines.map .run) (start grammar)
    ∀ x ∈ s.derivation.incomplete, x ∈ s.agenda.ids ∨ x ∈ bereft lines (start grammar) := by
  have hnone : (start grammar).Covers [] := fun _ hx => absurd hx List.not_mem_nil
  have hcovers := covers_afterAll hnone Derivation.isForest_empty hkeeps
  rwa [List.nil_append] at hcovers

/-- A grammar whose start has one child. -/
def onlyChildGrammar : Text := "<s> ::= <a>\n<a> ::= x".toList

/-- Lines that expand one root and link its only child to another one. -/
def onlyChildLines : List Text :=
  ["+1".toList, "0".toList, "1".toList, "+1".toList, "2 1".toList]

/-- The first root has lost its only child, and it is not on the agenda. -/
theorem incomplete_on_agenda_or_bereft_of_onlyChildLines :
    let s := afterAll (onlyChildLines.map .run) (start onlyChildGrammar)
    keepsWork onlyChildLines (start onlyChildGrammar) = true ∧
      s.derivation.incomplete = [0, 1] ∧ s.agenda.ids = [1] ∧
      0 ∈ bereft onlyChildLines (start onlyChildGrammar) := by
  intro s
  have hkeeps : keepsWork onlyChildLines (start onlyChildGrammar) = true := by decide +kernel
  have hincomplete : s.derivation.incomplete = [0, 1] := by decide +kernel
  have hagenda : s.agenda.ids = [1] := by decide +kernel
  have hzero : 0 ∈ s.derivation.incomplete := by
    rw [hincomplete]
    exact List.mem_cons_self ..
  refine ⟨hkeeps, hincomplete, hagenda, ?_⟩
  refine (incomplete_on_agenda_or_bereft onlyChildGrammar onlyChildLines hkeeps 0
    hzero).resolve_left fun hmem => ?_
  have hmem' : (0 : NodeId) ∈ s.agenda.ids := hmem
  rw [hagenda] at hmem'
  exact absurd hmem' (by decide)

/-- Without the exception for links it is not true: such a root is lost. -/
theorem not_forall_incomplete_on_agenda :
    ¬ ∀ (grammar : Text) (lines : List Text), keepsWork lines (start grammar) = true →
      let s := afterAll (lines.map .run) (start grammar)
      ∀ x ∈ s.derivation.incomplete, x ∈ s.agenda.ids := by
  intro h
  have hlost : ¬ ∀ x ∈ (afterAll (onlyChildLines.map .run)
      (start onlyChildGrammar)).derivation.incomplete,
      x ∈ (afterAll (onlyChildLines.map .run) (start onlyChildGrammar)).agenda.ids := by
    decide +kernel
  exact hlost (h onlyChildGrammar onlyChildLines (by decide +kernel))

end Session

end GrammarTree
