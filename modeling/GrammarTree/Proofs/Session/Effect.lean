import GrammarTree.Proofs.Session.Failure

/-!
# What a successful edit does

An edit of a session that succeeds does one of a dozen things. This file names them, says what each
of them makes of a session and when it can come about, and proves of every edit, command and action
which of them it is. What all of them keep, every history keeps.

An invariant of sessions is meant to be proved by looking at what can happen, and not at how it is
brought about. An effect has no checks and no failures left in it: what was checked is in `Arises`,
as a fact about the session before. `applyTo` is one update of the parts of the session. So a proof
about all sessions that can be reached is a case analysis over the effects, and the edits with their
order of steps are taken apart in this file only.

That an edit succeeds is not claimed here. `Proofs.Session.Outcome` says how an edit can end, and
`Proofs.Session.Failure` what remains after a failure.

What is here:

* `Session.Effect` with `Session.Effect.applyTo` and `Session.Effect.Arises`;
* `Session.Yields`, the edits that have an effect of some kind when they succeed, with one lemma for
  each edit;
* `Session.execute_yields`, `Session.Action.perform_yields` and `Session.run_eq_ok`, for commands,
  actions and lines;
* `Session.Action.exists_effect_after`: every action has an effect, be it that nothing changes;
* `Session.Reachable.induction`: what every effect keeps holds wherever actions lead;
* `Session.AddsUp.holds_afterAll`: a property of a list that the lines make longer.
-/

set_option autoImplicit false

namespace GrammarTree

namespace Derivation

variable {g g' : Derivation}

/-! ## Edits of the derivation that succeed

An edit of the derivation that succeeds is inverted: what it has checked holds, and the derivation
is a known change of the one before. The sequences of new nodes are already put together in
`Proofs.Derivation`. -/

theorem require_eq_ok {id : NodeId} {operation : Text} (h : require id operation g = .ok () g') :
    g.contains id = true ∧ g' = g := by
  rw [require_eq] at h
  split at h
  · rename_i hid
    cases h
    exact ⟨hid, rfl⟩
  · cases h

theorem link_eq_ok {parent child : NodeId} (h : link parent child g = .ok () g') :
    g.contains parent = true ∧ g.contains child = true ∧ child ∉ g.lineage parent ∧
      g' = g.setParent child (some parent) := by
  rw [link_eq] at h
  split at h
  · cases h
  · rename_i hparent
    split at h
    · cases h
    · rename_i hchild
      split at h
      · cases h
      · rename_i hfree
        cases h
        exact ⟨Bool.of_not_eq_false hparent, Bool.of_not_eq_false hchild, hfree, rfl⟩

theorem unlink_eq_ok {child : NodeId} {parent : Option NodeId}
    (h : unlink child g = .ok parent g') :
    g.contains child = true ∧ parent = g.parent? child ∧ g' = g.setParent child none := by
  rw [unlink_eq] at h
  split at h
  · rename_i hchild
    cases h
    exact ⟨hchild, rfl, rfl⟩
  · cases h

theorem delete_eq_ok {id : NodeId} {parent : Option NodeId} (h : delete id g = .ok parent g') :
    g.contains id = true ∧ parent = g.parent? id ∧ g' = g.withoutSubtree id := by
  rw [delete_eq] at h
  split at h
  · rename_i hid
    cases h
    exact ⟨hid, rfl, rfl⟩
  · cases h

theorem expand_eq_ok (hg : g.IsForest) {alternative : Text} {parent : NodeId}
    {created : List NodeId} (h : expand alternative parent g = .ok created g') :
    g.contains parent = true ∧ created = g.newIds (Alternative.tokens alternative).length ∧
      g' = g.withChildren parent (Alternative.tokens alternative) := by
  rw [expand_eq hg] at h
  split at h
  · rename_i hparent
    cases h
    exact ⟨hparent, rfl, rfl⟩
  · cases h

theorem growPath_eq_ok (hg : g.IsForest) {i : Index} {source : NodeId} {pattern : Text}
    {growth : Growth} (h : growPath i source pattern g = .ok growth g') :
    ∃ chain, g.chainFrom i source pattern = .ok chain ∧ growth = g.growthOf source chain ∧
      g' = g.withPath source chain := by
  rw [growPath_eq hg] at h
  split at h
  · rename_i chain hchain
    cases h
    exact ⟨chain, hchain, rfl, rfl⟩
  · cases h

end Derivation

namespace Session

/-! ## Effects -/

/-- What an edit may do to a session. -/
inductive Effect where
  /-- Nothing. -/
  | nothing
  /-- The grammar text is another one. -/
  | setGrammar (grammar : Text)
  /-- There is a new root node. -/
  | newRoot (label : Text)
  /-- One node is the parent of another. -/
  | link (parent child : NodeId)
  /-- A node has no parent any more. -/
  | unlink (node : NodeId)
  /-- A node is gone with everything below it. -/
  | delete (node : NodeId)
  /-- A node is the current one. -/
  | makeCurrent (node : NodeId)
  /-- The agenda holds the incomplete nodes. -/
  | refill
  /-- The current node has left the agenda. -/
  | skip
  /-- An alternative is being chosen. -/
  | beginSelection (selection : Selection)
  /-- No alternative is being chosen. -/
  | endSelection
  /-- A node has the tokens of an alternative as new children. -/
  | expand (node : NodeId) (alternative : Text)
  /-- A chain hangs from a node. -/
  | growPath (node : NodeId) (chain : Chain)

namespace Effect

/-- The session after an effect. -/
def applyTo : Effect → Session → Session
  | nothing, s => s
  | setGrammar grammar, s => { s with grammar := grammar }
  | newRoot label, s =>
    { s with derivation := s.derivation.growAt none label,
             agenda := s.agenda.append (some s.derivation.next) }
  | link parent child, s =>
    { s with derivation := s.derivation.setParent child (some parent),
             agenda := s.agenda.remove parent }
  | unlink node, s =>
    { s with derivation := s.derivation.setParent node none,
             agenda := s.agenda.append (s.derivation.parent? node) }
  | delete node, s =>
    { s with derivation := s.derivation.withoutSubtree node,
             agenda := (s.agenda.restrict (s.derivation.withoutSubtree node)).append
               (s.derivation.parent? node) }
  | makeCurrent node, s => { s with agenda := s.agenda.bringToFront node }
  | refill, s => { s with agenda := .ofIncomplete s.derivation }
  | skip, s => { s with agenda := s.agenda.dropCurrent }
  | beginSelection selection, s => { s with selection := some selection }
  | endSelection, s => { s with selection := none }
  | expand node alternative, s =>
    let labels := Alternative.tokens alternative
    let g := s.derivation.withChildren node labels
    { s with derivation := g,
             agenda := (s.agenda.remove node).prepend
               (g.placeholders (s.derivation.newIds labels.length)),
             selection := none }
  | growPath node chain, s =>
    { s with derivation := s.derivation.withPath node chain,
             agenda := (s.agenda.prepend (s.derivation.growthOf node chain).unfinished).remove
               node }

/-- Whether an effect can come about in a session. -/
def Arises : Effect → Session → Prop
  | newRoot label, s => ∃ rule ∈ s.rules, rule.symbol = label
  | link parent child, s =>
    s.derivation.contains parent = true ∧ s.derivation.contains child = true ∧
      child ∉ s.derivation.lineage parent
  | unlink node, s => s.derivation.contains node = true
  | delete node, s => s.derivation.contains node = true
  | makeCurrent node, s => s.derivation.contains node = true
  | beginSelection selection, s =>
    ∃ label, s.derivation.label? selection.node = some label ∧
      Grammar.merged? s.rules label = some selection.rule
  | expand node alternative, s =>
    s.derivation.contains node = true ∧
      ∃ rule, s.selection = some ⟨rule, node⟩ ∧ alternative ∈ rule.alternatives
  | growPath node chain, s =>
    ∃ pattern, s.derivation.chainFrom (.ofRules s.rules) node pattern = .ok chain
  | _, _ => True

end Effect

/-! ## Edits with an effect

Most edits end with a step that only returns something, and some start by finding the current node.
Neither changes the effect, which is said once for each. -/

variable {α β : Type} {s s' : Session}

/-- Whether an edit that succeeds has an effect of some kind. -/
def Yields (s : Session) (kind : Effect → Prop) (result : EStateM.Result Error Session α) : Prop :=
  ∀ a s', result = .ok a s' → ∃ e, kind e ∧ e.Arises s ∧ s' = e.applyTo s

variable {kind : Effect → Prop}

theorem yields_error (e : Error) (s' : Session) :
    Yields s kind (.error e s' : EStateM.Result Error Session α) := fun _ _ h => by cases h

theorem Yields.mono {kind' : Effect → Prop} {result : EStateM.Result Error Session α}
    (h : Yields s kind result) (hkind : ∀ e, kind e → kind' e) : Yields s kind' result := by
  intro a s' hok
  obtain ⟨e, he, harises, hstate⟩ := h a s' hok
  exact ⟨e, hkind e he, harises, hstate⟩

/-- Returning something else does not change the effect of an edit. -/
theorem Yields.andReturn {edit : Edit Session α} (h : Yields s kind (edit s)) (b : β) :
    Yields s kind ((edit >>= fun _ => pure b) s) := by
  intro b' s' hok
  obtain ⟨a, s'', hedit, hreturn⟩ := Edit.exists_of_bind_eq_ok hok
  cases hreturn
  exact h a s' hedit

theorem onDerivation_eq_ok {edit : Edit Derivation α} {a : α} (h : onDerivation edit s = .ok a s') :
    ∃ g, edit s.derivation = .ok a g ∧ s' = { s with derivation := g } := by
  rw [onDerivation] at h
  cases hedit : edit s.derivation with
  | ok b g =>
    rw [hedit] at h
    cases h
    exact ⟨g, rfl, rfl⟩
  | error e g =>
    rw [hedit] at h
    cases h

theorem nodeOrCurrent_bind_yields {f : NodeId → Edit Session α}
    (hf : ∀ id, Yields s kind (f id s)) (node : Option NodeId) :
    Yields s kind ((nodeOrCurrent node >>= f) s) := by
  rw [Edit.bind_apply]
  obtain ⟨id, hok⟩ | ⟨reason, herror⟩ := nodeOrCurrent_cases node s
  · rw [hok]
    exact hf id
  · rw [herror]
    exact yields_error _ _

/-! ### Edits of the derivation -/

theorem mem_of_ruleNumbered? {rules : List Rule} {number : Int} {rule : Rule}
    (h : Grammar.ruleNumbered? rules number = some rule) : rule ∈ rules := by
  rw [Grammar.ruleNumbered?] at h
  split at h
  · cases h
  · exact List.mem_of_getElem? h

theorem newRoot_yields (number : Int) :
    Yields s (fun e => ∃ label, e = .newRoot label) (newRoot number s) := by
  intro id s' h
  rw [newRoot, Edit.get_bind_apply] at h
  cases hrule : Grammar.ruleNumbered? s.rules number with
  | none =>
    rw [hrule] at h
    cases h
  | some rule =>
    rw [hrule] at h
    cases h
    exact ⟨.newRoot rule.symbol, ⟨_, rfl⟩, ⟨rule, mem_of_ruleNumbered? hrule, rfl⟩, rfl⟩

theorem link_yields (parent child : NodeId) :
    Yields s (fun e => e = .link parent child) (link parent child s) := by
  intro _ s' h
  obtain ⟨_, s₁, hlink, hagenda⟩ := Edit.exists_of_bind_eq_ok h
  obtain ⟨g, hg, rfl⟩ := onDerivation_eq_ok hlink
  obtain ⟨hparent, hchild, hfree, rfl⟩ := Derivation.link_eq_ok hg
  cases hagenda
  exact ⟨_, rfl, ⟨hparent, hchild, hfree⟩, rfl⟩

theorem unlink_yields (node : NodeId) :
    Yields s (fun e => e = .unlink node) (unlink node s) := by
  intro _ s' h
  obtain ⟨parent, s₁, hunlink, hagenda⟩ := Edit.exists_of_bind_eq_ok h
  obtain ⟨g, hg, rfl⟩ := onDerivation_eq_ok hunlink
  obtain ⟨hnode, rfl, rfl⟩ := Derivation.unlink_eq_ok hg
  cases hagenda
  exact ⟨_, rfl, hnode, rfl⟩

theorem delete_yields (node : NodeId) :
    Yields s (fun e => e = .delete node) (delete node s) := by
  intro _ s' h
  obtain ⟨parent, s₁, hdelete, hagenda⟩ := Edit.exists_of_bind_eq_ok h
  obtain ⟨g, hg, rfl⟩ := onDerivation_eq_ok hdelete
  obtain ⟨hnode, rfl, rfl⟩ := Derivation.delete_eq_ok hg
  cases hagenda
  exact ⟨_, rfl, hnode, rfl⟩

/-! ### The agenda -/

theorem makeCurrent_yields (node : NodeId) :
    Yields s (fun e => e = .makeCurrent node) (makeCurrent node s) := by
  intro _ s' h
  obtain ⟨_, s₁, hrequire, hagenda⟩ := Edit.exists_of_bind_eq_ok h
  obtain ⟨g, hg, rfl⟩ := onDerivation_eq_ok hrequire
  obtain ⟨hnode, rfl⟩ := Derivation.require_eq_ok hg
  cases hagenda
  exact ⟨_, rfl, hnode, rfl⟩

theorem refill_yields : Yields s (fun e => e = .refill) (refill s) := by
  intro _ s' h
  cases h
  exact ⟨_, rfl, trivial, rfl⟩

theorem skip_yields : Yields s (fun e => e = .skip) (skip s) := by
  intro _ s' h
  cases h
  exact ⟨_, rfl, trivial, rfl⟩

/-! ### Selections -/

theorem lookUpRule_eq_ok {symbol : Text} {rule : Rule} (h : lookUpRule symbol s = .ok rule s') :
    Grammar.merged? s.rules symbol = some rule ∧ s' = s := by
  rw [lookUpRule_eq] at h
  cases hrule : Grammar.merged? s.rules symbol with
  | none =>
    rw [hrule] at h
    cases h
  | some merged =>
    rw [hrule] at h
    cases h
    exact ⟨rfl, rfl⟩

theorem beginSelection_yields (node : Option NodeId) :
    Yields s (fun e => ∃ selection, e = .beginSelection selection) (beginSelection node s) := by
  refine nodeOrCurrent_bind_yields (fun id => ?_) node
  intro _ s' h
  rw [Edit.get_bind_apply] at h
  cases hlabel : s.derivation.label? id with
  | none =>
    rw [hlabel] at h
    cases h
  | some label =>
    rw [hlabel] at h
    obtain ⟨rule, s₁, hlookup, hselect⟩ := Edit.exists_of_bind_eq_ok h
    obtain ⟨hrule, rfl⟩ := lookUpRule_eq_ok hlookup
    cases hselect
    exact ⟨_, ⟨_, rfl⟩, ⟨label, hlabel, hrule⟩, rfl⟩

theorem endSelection_yields : Yields s (fun e => e = .endSelection) (endSelection s) := by
  intro _ s' h
  cases h
  exact ⟨_, rfl, trivial, rfl⟩

/-- The alternative that the selection offers at a position. -/
def offeredAt? (s : Session) (position : Option Int) : Option Text :=
  s.selection.bind fun selection => alternativeAt? selection.rule position

theorem mem_alternatives_of_alternativeAt? {rule : Rule} {position : Option Int} {a : Text}
    (h : alternativeAt? rule position = some a) : a ∈ rule.alternatives := by
  rw [alternativeAt?] at h
  split at h
  · cases h
  · exact List.mem_of_getElem? h

theorem choose_yields (hs : s.derivation.IsForest) (position : Option Int) :
    Yields s (fun e => ∃ node a, e = .expand node a ∧ s.offeredAt? position = some a)
      (choose position s) := by
  intro created s' h
  rw [choose_eq] at h
  cases hselection : s.selection with
  | none =>
    rw [hselection] at h
    cases h
  | some selection =>
    simp only [hselection] at h
    split at h
    · rename_i hnode
      cases ha : alternativeAt? selection.rule position with
      | none =>
        rw [ha] at h
        cases h
      | some a =>
        rw [ha] at h
        obtain ⟨created, s₁, hexpand, hagenda⟩ := Edit.exists_of_bind_eq_ok h
        obtain ⟨g, hg, rfl⟩ := onDerivation_eq_ok hexpand
        obtain ⟨-, rfl, rfl⟩ := Derivation.expand_eq_ok hs hg
        cases hagenda
        refine ⟨.expand selection.node a, ⟨_, a, rfl, ?_⟩, ?_, rfl⟩
        · rw [offeredAt?, hselection, Option.bind_some, ha]
        · exact ⟨hnode, selection.rule, hselection, mem_alternatives_of_alternativeAt? ha⟩
    · cases h

/-- The position of the one alternative on offer that a pattern matches. -/
def positionOf? (s : Session) (pattern : Text) : Option Nat :=
  (onlyMatch? (fun item => matchesPattern pattern item.1) (s.alternatives.zipIdx 1)).map Prod.snd

/-- Choosing by a pattern is choosing by the position of the match. -/
theorem chooseMatching_eq_of_positionOf? {pattern : Text} {position : Nat}
    (h : s.positionOf? pattern = some position) :
    chooseMatching pattern s = choose (some position) s := by
  obtain ⟨item, hitem, rfl⟩ := Option.map_eq_some_iff.1 h
  rw [chooseMatching, Edit.get_bind_apply, hitem]

theorem positionOf?_of_chooseMatching {pattern : Text} {created : List NodeId}
    (h : chooseMatching pattern s = .ok created s') :
    ∃ position, s.positionOf? pattern = some position := by
  rw [chooseMatching, Edit.get_bind_apply] at h
  rw [positionOf?]
  cases hitem : onlyMatch? (fun item => matchesPattern pattern item.1)
      (s.alternatives.zipIdx 1) with
  | some item => exact ⟨item.2, rfl⟩
  | none =>
    rw [hitem] at h
    cases hcount : s.alternatives.countP (matchesPattern pattern) with
    | zero =>
      simp only [hcount] at h
      cases h
    | succ count =>
      simp only [hcount] at h
      cases h

theorem chooseMatching_yields (hs : s.derivation.IsForest) (pattern : Text) :
    Yields s (fun e => ∃ node a position, e = .expand node a ∧
      s.positionOf? pattern = some position ∧ s.offeredAt? (some position) = some a)
      (chooseMatching pattern s) := by
  intro created s' h
  obtain ⟨position, hposition⟩ := positionOf?_of_chooseMatching h
  rw [chooseMatching_eq_of_positionOf? hposition] at h
  obtain ⟨e, ⟨node, a, rfl, ha⟩, harises, hstate⟩ := choose_yields hs _ created s' h
  exact ⟨_, ⟨node, a, position, rfl, hposition, ha⟩, harises, hstate⟩

/-! ### Paths -/

theorem growPath_eq_ok (hs : s.derivation.IsForest) {node : Option NodeId} {pattern : Text}
    {growth : Growth} (h : growPath node pattern s = .ok growth s') :
    (Effect.growPath growth.source growth.chain).Arises s ∧
      s' = (Effect.growPath growth.source growth.chain).applyTo s := by
  obtain ⟨id, hok⟩ | ⟨reason, herror⟩ := nodeOrCurrent_cases node s
  · rw [growPath, Edit.bind_apply, hok] at h
    obtain ⟨_, _, hget, h⟩ := Edit.exists_of_bind_eq_ok h
    cases hget
    obtain ⟨growth', s₁, hpath, hagenda⟩ := Edit.exists_of_bind_eq_ok h
    obtain ⟨g, hg, rfl⟩ := onDerivation_eq_ok hpath
    obtain ⟨chain, hchain, rfl, rfl⟩ := Derivation.growPath_eq_ok hs hg
    cases hagenda
    exact ⟨⟨pattern, hchain⟩, rfl⟩
  · rw [growPath, Edit.bind_apply, herror] at h
    cases h

theorem growPath_yields (hs : s.derivation.IsForest) (node : Option NodeId) (pattern : Text) :
    Yields s (fun e => ∃ id chain, e = .growPath id chain ∧
      ∃ growth s', growPath node pattern s = .ok growth s' ∧ growth.chain = chain)
      (growPath node pattern s) := by
  intro growth s' hgrow
  obtain ⟨harises, hstate⟩ := growPath_eq_ok hs hgrow
  exact ⟨_, ⟨growth.source, growth.chain, rfl, growth, s', hgrow, rfl⟩, harises, hstate⟩

end Session

/-! ## Commands -/

open Session (Effect)

/-- Whether an effect is the one that a command asks for. -/
def Command.AsksFor (s : Session) : Command → Effect → Prop
  | .draw _, e => e = .nothing
  | .newRoot _, e => ∃ label, e = .newRoot label
  | .unlink node, e => e = .unlink node
  | .makeCurrent node, e => e = .makeCurrent node
  | .delete node, e => e = .delete node
  | .refill, e => e = .refill
  | .skip, e => e = .skip
  | .beginSelection _, e => ∃ selection, e = .beginSelection selection
  | .link parent child, e => e = .link parent child
  | .growPath pattern node, e =>
    ∃ id chain, e = .growPath id chain ∧ ∃ growth s',
      Session.growPath (node.map Int.ofNat) pattern s = .ok growth s' ∧ growth.chain = chain
  | .choose position, e =>
    ∃ node a, e = .expand node a ∧ s.offeredAt? (position.map Int.ofNat) = some a
  | .endSelection, e => e = .endSelection
  | .chooseMatching pattern, e =>
    ∃ node a position, e = .expand node a ∧ s.positionOf? pattern = some position ∧
      s.offeredAt? (some position) = some a

namespace Session

variable {s : Session}

/-- **A command that succeeds has the effect that it asks for.** -/
theorem execute_yields (hs : s.derivation.IsForest) (c : Command) :
    Yields s (c.AsksFor s) (execute c s) := by
  cases c with
  | draw mode =>
    intro output s' h
    cases h
    exact ⟨.nothing, rfl, trivial, rfl⟩
  | newRoot rule => exact (newRoot_yields rule).andReturn _
  | unlink node => exact (unlink_yields node).andReturn _
  | makeCurrent node => exact (makeCurrent_yields node).andReturn _
  | delete node => exact (delete_yields node).andReturn _
  | refill => exact refill_yields.andReturn _
  | skip => exact skip_yields.andReturn _
  | beginSelection node => exact (beginSelection_yields _).andReturn _
  | link parent child => exact (link_yields parent child).andReturn _
  | growPath pattern node => exact (growPath_yields hs _ pattern).andReturn _
  | choose position => exact (choose_yields hs _).andReturn _
  | endSelection => exact endSelection_yields.andReturn _
  | chooseMatching pattern => exact (chooseMatching_yields hs pattern).andReturn _

/-! ## Histories

An action that fails has an effect as well, namely none, or the end of the selection. With that an
induction over the actions needs no case for failures. -/

theorem Yields.some {α : Type} {kind : Effect → Prop} {result : EStateM.Result Error Session α}
    (h : Yields s kind result) : Yields s (fun _ => True) result :=
  h.mono fun _ _ => trivial

theorem Action.perform_yields (hs : s.derivation.IsForest) (a : Action) :
    Yields s (fun _ => True) (a.perform s) := by
  cases a with
  | setGrammar grammar =>
    intro _ s' h
    cases h
    exact ⟨.setGrammar grammar, trivial, trivial, rfl⟩
  | newRoot number => exact ((newRoot_yields number).andReturn _).some
  | link parent child => exact (link_yields parent child).some
  | unlink node => exact ((unlink_yields node).andReturn _).some
  | delete node => exact ((delete_yields node).andReturn _).some
  | makeCurrent node => exact (makeCurrent_yields node).some
  | refill => exact refill_yields.some
  | skip => exact (skip_yields.andReturn _).some
  | lookUpRule symbol =>
    refine Yields.andReturn (fun rule s' h => ?_) _
    obtain ⟨-, rfl⟩ := lookUpRule_eq_ok h
    exact ⟨.nothing, trivial, trivial, rfl⟩
  | beginSelection node => exact ((beginSelection_yields node).andReturn _).some
  | endSelection => exact endSelection_yields.some
  | choose position => exact ((choose_yields hs position).andReturn _).some
  | chooseMatching pattern => exact ((chooseMatching_yields hs pattern).andReturn _).some
  | growPath node pattern => exact ((growPath_yields hs node pattern).andReturn _).some
  | execute c => exact ((execute_yields hs c).andReturn _).some
  | run text =>
    refine Yields.andReturn ?_ _
    rw [Session.run, Edit.get_bind_apply]
    cases Command.read text s.isSelecting with
    | ok c => exact (execute_yields hs c).some
    | error e => exact yields_error _ _

/-- A line that succeeds is read as a command, and has the effect that the command asks for. -/
theorem run_eq_ok (hs : s.derivation.IsForest) {text : Text} {output : Option Text} {s' : Session}
    (h : run text s = .ok output s') :
    ∃ c e, Command.read text s.isSelecting = .ok c ∧ c.AsksFor s e ∧ e.Arises s ∧
      s' = e.applyTo s := by
  rw [run, Edit.get_bind_apply] at h
  cases hread : Command.read text s.isSelecting with
  | error e =>
    rw [hread] at h
    cases h
  | ok c =>
    rw [hread] at h
    obtain ⟨e, hasks, harises, hstate⟩ := execute_yields hs c output s' h
    exact ⟨c, e, rfl, hasks, harises, hstate⟩

/-- Every action has an effect, be it that nothing changes or that the selection ends. -/
theorem Action.exists_effect_after (hs : s.derivation.IsForest) (a : Action) :
    ∃ e : Effect, e.Arises s ∧ a.after s = e.applyTo s := by
  have hyields := a.perform_yields hs
  have hsettles := a.perform_settles hs
  rw [Action.after, Edit.finalState]
  cases hresult : a.perform s with
  | ok _ s' =>
    obtain ⟨e, -, harises, hstate⟩ := hyields _ _ hresult
    exact ⟨e, harises, hstate⟩
  | error e s' =>
    rw [hresult] at hsettles
    cases hsettles with
    | refused _ => exact ⟨.nothing, trivial, rfl⟩
    | deselected _ => exact ⟨.endSelection, trivial, rfl⟩

/-- **What every effect keeps holds of every session that can be reached.** -/
theorem Reachable.induction {P : Session → Prop} (hstart : ∀ grammar, P (start grammar))
    (heffect : ∀ (s : Session) (e : Effect), s.derivation.IsForest → e.Arises s → P s →
      P (e.applyTo s)) (hs : s.Reachable) : P s := by
  obtain ⟨grammar, actions, rfl⟩ := hs
  suffices hall : ∀ s : Session, s.derivation.IsForest → P s → P (afterAll actions s) from
    hall _ Derivation.isForest_empty (hstart grammar)
  induction actions with
  | nil => exact fun s _ hP => hP
  | cons a actions ih =>
    intro s hs hP
    obtain ⟨e, harises, hafter⟩ := a.exists_effect_after hs
    refine ih _ (a.isForest_after hs) ?_
    rw [hafter]
    exact heffect s e hs harises hP

/-! ## Lines

Some properties of a session that is driven by lines speak of a list that the lines make longer: the
nodes that they leave behind, or those that they queue again. The list is no part of the session. It
is computed along the lines, and such a property is carried over a line by the effect of the line if
it succeeds, and by nothing but the end of a selection if it fails. -/

theorem after_run (text : Text) : (Action.run text).after s = Edit.finalState (run text) s := by
  rw [Action.after, Edit.finalState, Action.perform, Edit.bind_apply, Edit.finalState]
  cases run text s <;> rfl

/-- **What holds after a line** is what its effect brings about. A line that fails has none: it
leaves the session as it is, or it ends the selection. -/
theorem holds_after_run {P : Session → Prop} (hs : s.derivation.IsForest) {text : Text}
    (hkept : P s) (hdeselected : P { s with selection := none })
    (heffect : ∀ output c e, run text s = .ok output (e.applyTo s) →
      Command.read text s.isSelecting = .ok c → c.AsksFor s e → e.Arises s → P (e.applyTo s)) :
    P ((Action.run text).after s) := by
  have hsettles := run_settles hs text
  rw [after_run, Edit.finalState]
  cases hrun : run text s with
  | error e s' =>
    rw [hrun] at hsettles
    cases hsettles with
    | refused _ => exact hkept
    | deselected _ => exact hdeselected
  | ok output s' =>
    obtain ⟨c, e, hread, hasks, harises, rfl⟩ := run_eq_ok hs hrun
    exact heffect output c e hrun hread hasks harises

/-- Whether a list puts together what each of some lines adds to it. -/
structure AddsUp (added : Session → Text → List NodeId)
    (total : List Text → Session → List NodeId) : Prop where
  /-- Without lines there is nothing. -/
  nil : ∀ s, total [] s = []
  /-- The first line comes first, and the other lines go on behind it. -/
  cons : ∀ line lines s,
    total (line :: lines) s = added s line ++ total lines ((Action.run line).after s)

/-- **What each line carries over to a longer list, all lines do.** `fits` says what the lines that
are still to come need of the session. -/
theorem AddsUp.holds_afterAll {added : Session → Text → List NodeId}
    {total : List Text → Session → List NodeId} (hadds : AddsUp added total)
    (fits : List Text → Session → Prop) {holds : Session → List NodeId → Prop}
    (hline : ∀ line lines s ids, s.derivation.IsForest → fits (line :: lines) s → holds s ids →
      fits lines ((Action.run line).after s) ∧
        holds ((Action.run line).after s) (ids ++ added s line))
    {lines : List Text} (hs : s.derivation.IsForest) (hfits : fits lines s) {ids : List NodeId}
    (h : holds s ids) : holds (afterAll (lines.map .run) s) (ids ++ total lines s) := by
  induction lines generalizing s ids with
  | nil => rwa [hadds.nil, List.append_nil]
  | cons line lines ih =>
    obtain ⟨hrest, hafter⟩ := hline line lines s ids hs hfits h
    rw [hadds.cons, ← List.append_assoc, List.map_cons, afterAll]
    exact ih ((Action.run line).isForest_after hs) hrest hafter

end Session

end GrammarTree
