import GrammarTree.Proofs.Session.Frame

/-!
# A session with separate slots

A session holds its selection as one value. It can as well be kept in three slots that are filled
and emptied one by one: the mode, the rule that offers the alternatives, and the selected node. This
file defines such a session with its edits, and proves that it does the same as the other one.

With three slots there are more states than with one value, and most of them make no sense, such as
a mode of selecting without a rule. An edit of the slots has to set each of them, and the order in
which it does so can be seen when it fails in between. That the three stay in step is what the
simulation says: from the slots of a session, an edit leads to the slots of a session.

What is here:

* `SlotSession`, with the edits of its slots, and `SlotSession.execute` and `SlotSession.run`;
* `Session.slots`, the slots of a session;
* `SlotSession.simulates_run`: a line does the same in both sessions.
-/

set_option autoImplicit false

namespace GrammarTree

/-- What a line means depends on the mode. -/
inductive Mode where
  /-- No alternative is being chosen. -/
  | idle
  /-- An alternative is being chosen. -/
  | select
  deriving DecidableEq, Repr

/-- The state of an editing session with the parts of the selection in slots of their own. -/
structure SlotSession where
  /-- The grammar text. -/
  grammar : Text
  /-- The derivation. -/
  derivation : Derivation
  /-- The nodes to work on next. -/
  agenda : Agenda
  /-- The mode in which lines are read. -/
  mode : Mode
  /-- The merged rule that offers the alternatives. -/
  rule : Option Rule
  /-- The node to expand. -/
  node : Option NodeId
  deriving DecidableEq, Repr

namespace SlotSession

variable {α : Type}

/-- A new session over a grammar text. -/
def start (grammar : Text) : SlotSession := ⟨grammar, .empty, .empty, .idle, none, none⟩

/-- The alternatives on offer; none without a rule. -/
def alternatives (t : SlotSession) : List Text :=
  match t.rule with
  | some rule => rule.alternatives
  | none => []

/-! ## Steps on the parts of a session -/

/-- An edit of a session without a selection, as an edit that leaves the slots alone. -/
def besideSlots (edit : Edit Session α) : Edit SlotSession α := fun t =>
  Edit.mapState (fun s => { t with grammar := s.grammar, derivation := s.derivation,
                                   agenda := s.agenda })
    (edit ⟨t.grammar, t.derivation, t.agenda, none⟩)

/-- A change of the mode. -/
def setMode (mode : Mode) : Edit SlotSession Unit := modify fun t => { t with mode := mode }

/-- A change of the slot of the rule. -/
def setRule (rule : Option Rule) : Edit SlotSession Unit := modify fun t => { t with rule := rule }

/-- A change of the slot of the node. -/
def setNode (node : Option NodeId) : Edit SlotSession Unit :=
  modify fun t => { t with node := node }

/-! ## Selections -/

/-- Starts choosing an alternative for a node, the current one if none is given. -/
def beginSelection (node : Option NodeId) : Edit SlotSession Rule := do
  let id ← besideSlots (Session.nodeOrCurrent node)
  match (← get).derivation.label? id with
  | none => throw (.noSuchNode id "select".toList)
  | some label =>
    let rule ← besideSlots (Session.lookUpRule label)
    setMode .select
    setRule (some rule)
    setNode (some id)
    return rule

/-- Ends the selection. -/
def endSelection : Edit SlotSession Unit := do
  setMode .idle
  setRule none
  setNode none

/-- Expands the chosen alternative under the selected node, where both slots are filled. -/
def choose (position : Option Int) : Edit SlotSession (List NodeId) := do
  let t ← get
  match t.rule, t.node with
  | some rule, some node =>
    unless t.derivation.contains node do
      endSelection
      throw (.noSuchNode node "expand".toList)
    let position := position.getD rule.alternatives.length
    match if position < 1 then none else rule.alternatives[(position - 1).toNat]? with
    | none => throw (.selection (SelectionFault.noAlternative position).reason)
    | some alternative =>
      let created ← besideSlots (Session.onDerivation (Derivation.expand alternative node))
      besideSlots (Session.onAgenda (.remove node))
      let g := (← get).derivation
      besideSlots (Session.onAgenda (.prepend (g.placeholders created)))
      endSelection
      return created
  | _, _ => throw (.selection SelectionFault.notSelecting.reason)

/-- Chooses the one alternative that a pattern matches. -/
def chooseMatching (pattern : Text) : Edit SlotSession (List NodeId) := do
  let alternatives := (← get).alternatives
  match onlyMatch? (fun item => matchesPattern pattern item.1) (alternatives.zipIdx 1) with
  | some item => choose (some item.2)
  | none =>
    match alternatives.countP (matchesPattern pattern) with
    | 0 => throw (.selection (SelectionFault.noMatch pattern).reason)
    | count => throw (.selection (SelectionFault.severalMatches pattern count).reason)

/-! ## Commands -/

/-- Applies a command. -/
def execute : Command → Edit SlotSession (Option Text)
  | .beginSelection node => do let _ ← beginSelection (node.map Int.ofNat); return none
  | .choose position => do let _ ← choose (position.map Int.ofNat); return none
  | .endSelection => do endSelection; return none
  | .chooseMatching pattern => do let _ ← chooseMatching pattern; return none
  | c => besideSlots (Session.execute c)

/-- Reads a command line in the mode of the session and applies it. -/
def run (text : Text) : Edit SlotSession (Option Text) := do
  match Command.read text ((← get).mode = .select) with
  | .ok command => execute command
  | .error e => throw e

end SlotSession

/-! ## The slots of a session

The edits that have nothing to do with the selection are taken over as they are, on a session
without one. That this is the same as on a session with one is the frame property of
`Proofs.Session.Frame`. -/

/-- The session with its selection in slots. -/
def Session.slots (s : Session) : SlotSession where
  grammar := s.grammar
  derivation := s.derivation
  agenda := s.agenda
  mode := if s.isSelecting then .select else .idle
  rule := s.selection.map Selection.rule
  node := s.selection.map Selection.node

namespace Session

@[simp] theorem slots_derivation (s : Session) : s.slots.derivation = s.derivation := rfl

@[simp] theorem slots_rule (s : Session) : s.slots.rule = s.selection.map Selection.rule := rfl

@[simp] theorem slots_node (s : Session) : s.slots.node = s.selection.map Selection.node := rfl

theorem slots_mode (s : Session) : s.slots.mode = .select ↔ s.isSelecting = true := by
  rw [slots]
  cases s.isSelecting <;> simp

theorem slots_alternatives (s : Session) : s.slots.alternatives = s.alternatives := by
  rw [SlotSession.alternatives, slots_rule, alternatives]
  cases s.selection <;> rfl

end Session

namespace SlotSession

open Session (slots)

variable {α : Type}

theorem simulates_besideSlots {edit : Edit Session α} (h : Session.Frames edit) :
    Edit.Simulates slots edit (besideSlots edit) := by
  intro s
  have hnone : edit ⟨s.grammar, s.derivation, s.agenda, none⟩ =
      Edit.mapState (Session.withSelection none) (edit s) := h none s
  rw [besideSlots]
  change Edit.mapState _ (edit ⟨s.grammar, s.derivation, s.agenda, none⟩) = _
  rw [hnone, h.eq_withSelection s]
  cases edit s <;> rfl

theorem simulates_endSelection : Edit.Simulates slots Session.endSelection endSelection :=
  fun _ => rfl

theorem simulates_beginSelection (node : Option NodeId) :
    Edit.Simulates slots (Session.beginSelection node) (beginSelection node) := by
  refine (simulates_besideSlots (Session.frames_nodeOrCurrent node)).bind fun id => ?_
  refine Edit.Simulates.get_bind fun s => ?_
  rw [Session.slots_derivation]
  cases s.derivation.label? id with
  | none => rfl
  | some label =>
    exact (simulates_besideSlots (Session.frames_lookUpRule label)).bind (fun _ _ => rfl) s

theorem simulates_choose (position : Option Int) :
    Edit.Simulates slots (Session.choose position) (choose position) := by
  refine Edit.Simulates.get_bind fun s => ?_
  rw [Session.slots_rule, Session.slots_node, Session.slots_derivation]
  cases s.selection with
  | none => rfl
  | some selection =>
    refine Edit.Simulates.ite ?_ ?_ s
    · dsimp only
      generalize (if position.getD selection.rule.alternatives.length < 1 then none
        else selection.rule.alternatives[
          (position.getD selection.rule.alternatives.length - 1).toNat]?) = chosen
      cases chosen with
      | none => exact Edit.simulates_throw _
      | some alternative =>
        refine (simulates_besideSlots (Session.frames_onDerivation _)).bind fun created => ?_
        refine (simulates_besideSlots (Session.frames_onAgenda _)).bind fun _ => ?_
        refine Edit.Simulates.get_bind fun s' => ?_
        exact (simulates_besideSlots (Session.frames_onAgenda _)).bind (fun _ =>
          simulates_endSelection.bind fun _ => Edit.simulates_pure created) s'
    · exact fun _ => rfl

theorem simulates_chooseMatching (pattern : Text) :
    Edit.Simulates slots (Session.chooseMatching pattern) (chooseMatching pattern) := by
  refine Edit.Simulates.get_bind fun s => ?_
  rw [Session.slots_alternatives]
  cases onlyMatch? (fun item => matchesPattern pattern item.1) (s.alternatives.zipIdx 1) with
  | some item => exact simulates_choose _ s
  | none =>
    cases s.alternatives.countP (matchesPattern pattern) with
    | zero => rfl
    | succ count => rfl

theorem simulates_execute (c : Command) :
    Edit.Simulates slots (Session.execute c) (execute c) := by
  cases c with
  | beginSelection node => exact (simulates_beginSelection _).bind fun _ => Edit.simulates_pure _
  | choose position => exact (simulates_choose _).bind fun _ => Edit.simulates_pure _
  | endSelection => exact simulates_endSelection.bind fun _ => Edit.simulates_pure _
  | chooseMatching pattern =>
    exact (simulates_chooseMatching pattern).bind fun _ => Edit.simulates_pure _
  | _ => exact simulates_besideSlots (Session.frames_execute rfl fun _ h => by cases h)

/-- **A line does the same in both sessions.** -/
theorem simulates_run (text : Text) : Edit.Simulates slots (Session.run text) (run text) := by
  refine Edit.Simulates.get_bind fun s => ?_
  have hmode : decide ((slots s).mode = .select) = s.isSelecting :=
    Bool.eq_iff_iff.2 (decide_eq_true_iff.trans s.slots_mode)
  rw [hmode]
  cases Command.read text s.isSelecting with
  | ok c => exact simulates_execute c s
  | error e => rfl

end SlotSession

end GrammarTree
