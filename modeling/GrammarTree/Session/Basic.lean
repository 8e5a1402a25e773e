import GrammarTree.Agenda
import GrammarTree.Command.Parser
import GrammarTree.Derivation.Growth

/-!
# Editing sessions

A session holds a grammar text, one derivation and its agenda, and while an alternative is being
chosen it also holds the selection. The grammar is read again for every query, so that a change of
its text takes effect at once. A selection keeps the rule that it started with.

A command changes the derivation first and the agenda after it. The agenda is told what has become
current and what may need work again, and nothing keeps it in step with the derivation beyond that.
Which of its nodes exist, and which incomplete nodes it lacks, are therefore matters for proofs.

The edits are written in the monad of the derivation edits, where a failure keeps what was changed
before it. That no command fails after a change is a theorem about them, with one exception: a
choice for a node that is gone fails and ends the selection too.

What is here:

* `Session` and `Selection`;
* the edits of a session, one for each kind of command;
* `Session.execute`, which applies a command, and `Session.run`, which reads it first.
-/

set_option autoImplicit false

namespace GrammarTree

/-- An alternative is being chosen. -/
structure Selection where
  /-- The merged rule that offers the alternatives. -/
  rule : Rule
  /-- The node to expand. -/
  node : NodeId
  deriving DecidableEq, Repr

/-- The state of an editing session. -/
structure Session where
  /-- The grammar text. -/
  grammar : Text
  /-- The derivation. -/
  derivation : Derivation
  /-- The nodes to work on next. -/
  agenda : Agenda
  /-- The choice that has been started, if any. -/
  selection : Option Selection
  deriving DecidableEq, Repr

namespace Session

/-- A new session over a grammar text. -/
def start (grammar : Text) : Session := ⟨grammar, .empty, .empty, none⟩

/-! ## Queries -/

/-- The valid rules of the grammar. -/
def rules (s : Session) : List Rule := Grammar.rules s.grammar

/-- Whether an alternative is being chosen. -/
def isSelecting (s : Session) : Bool := s.selection.isSome

/-- The alternatives on offer; none outside a selection. -/
def alternatives (s : Session) : List Text :=
  match s.selection with
  | some selection => selection.rule.alternatives
  | none => []

/-- The drawing of the derivation with the current node as the highlighted one. -/
def draw (s : Session) (mode : DrawingMode) : Text :=
  s.derivation.draw (.ofMode mode s.agenda.current?)

/-! ## Steps on the parts of a session

An edit of the derivation does not know the session. It is lifted to one that leaves the other parts
as they are, also when it fails. -/

/-- An edit of the derivation as an edit of the session. -/
def onDerivation {α : Type} (edit : Edit Derivation α) : Edit Session α := fun s =>
  match edit s.derivation with
  | .ok a g => .ok a { s with derivation := g }
  | .error e g => .error e { s with derivation := g }

/-- A change of the agenda. -/
def onAgenda (change : Agenda → Agenda) : Edit Session Unit :=
  modify fun s => { s with agenda := change s.agenda }

/-- The merged rule of a symbol. -/
def lookUpRule (symbol : Text) : Edit Session Rule := do
  match Grammar.merged? (← get).rules symbol with
  | some rule => return rule
  | none => throw (.noRuleFor symbol)

/-- The given node, or else the current one. -/
def nodeOrCurrent (node : Option NodeId) : Edit Session NodeId := do
  match node with
  | some id => return id
  | none =>
    match (← get).agenda.current? with
    | some id => return id
    | none => throw (.selection SelectionFault.noCurrentNode.reason)

/-! ## Edits of the derivation -/

/-- Creates a root node with the symbol of a numbered rule. -/
def newRoot (number : Int) : Edit Session NodeId := do
  match Grammar.ruleNumbered? (← get).rules number with
  | none => throw (.noRuleNumbered number)
  | some rule =>
    let id ← onDerivation (Derivation.newNode rule.symbol)
    onAgenda (.append (some id))
    return id

/-- Makes one node the parent of another; the parent needs no more work. -/
def link (parent child : NodeId) : Edit Session Unit := do
  onDerivation (Derivation.link parent child)
  onAgenda (.remove parent)

/-- Takes a node away from its parent, which may need work again. -/
def unlink (node : NodeId) : Edit Session (Option NodeId) := do
  let parent ← onDerivation (Derivation.unlink node)
  onAgenda (.append parent)
  return parent

/-- Deletes a node with its descendants; its parent may need work again. -/
def delete (node : NodeId) : Edit Session (Option NodeId) := do
  let parent ← onDerivation (Derivation.delete node)
  let g := (← get).derivation
  onAgenda (.restrict g)
  onAgenda (.append parent)
  return parent

/-! ## The agenda -/

/-- Makes an existing node the current one. -/
def makeCurrent (node : NodeId) : Edit Session Unit := do
  onDerivation (Derivation.require node "focus".toList)
  onAgenda (.bringToFront node)

/-- Refills the agenda with the incomplete nodes. -/
def refill : Edit Session Unit := do
  let g := (← get).derivation
  onAgenda fun _ => .ofIncomplete g

/-- Drops the current node and returns it. -/
def skip : Edit Session (Option NodeId) := do
  let node := (← get).agenda.current?
  onAgenda .dropCurrent
  return node

/-! ## Selections

A selection has two steps, and commands may come between them. The node of the selection may be gone
when the choice is made, and the rules may have changed. The first is checked when the choice is
made; the second makes no difference, since the rule was kept. -/

/-- Starts choosing an alternative for a node, the current one if none is given. -/
def beginSelection (node : Option NodeId) : Edit Session Rule := do
  let id ← nodeOrCurrent node
  match (← get).derivation.label? id with
  | none => throw (.noSuchNode id "select".toList)
  | some label =>
    let rule ← lookUpRule label
    modify fun s => { s with selection := some ⟨rule, id⟩ }
    return rule

/-- Ends the selection. -/
def endSelection : Edit Session Unit := modify fun s => { s with selection := none }

/-- Expands the chosen alternative under the selected node. The position counts from 1; without a
position it is the last alternative. If the selected node is gone, the selection ends too. -/
def choose (position : Option Int) : Edit Session (List NodeId) := do
  let s ← get
  match s.selection with
  | none => throw (.selection SelectionFault.notSelecting.reason)
  | some ⟨rule, node⟩ =>
    unless s.derivation.contains node do
      endSelection
      throw (.noSuchNode node "expand".toList)
    let position := position.getD rule.alternatives.length
    match if position < 1 then none else rule.alternatives[(position - 1).toNat]? with
    | none => throw (.selection (SelectionFault.noAlternative position).reason)
    | some alternative =>
      let created ← onDerivation (Derivation.expand alternative node)
      onAgenda (.remove node)
      let g := (← get).derivation
      onAgenda (.prepend (g.placeholders created))
      endSelection
      return created

/-- Chooses the one alternative that a pattern matches. -/
def chooseMatching (pattern : Text) : Edit Session (List NodeId) := do
  let alternatives := (← get).alternatives
  match onlyMatch? (fun item => matchesPattern pattern item.1) (alternatives.zipIdx 1) with
  | some item => choose (some item.2)
  | none =>
    match alternatives.countP (matchesPattern pattern) with
    | 0 => throw (.selection (SelectionFault.noMatch pattern).reason)
    | count => throw (.selection (SelectionFault.severalMatches pattern count).reason)

/-! ## Paths -/

/-- Grows the simple path from a node, the current one if none is given, to the value that a
pattern matches. -/
def growPath (node : Option NodeId) (pattern : Text) : Edit Session Growth := do
  let id ← nodeOrCurrent node
  let index := Index.ofRules (← get).rules
  let growth ← onDerivation (Derivation.growPath index id pattern)
  onAgenda (.prepend growth.unfinished)
  onAgenda (.remove id)
  return growth

/-- Grows a path from a new root node. -/
def growRootPath (root pattern : Text) : Edit Session Growth := do
  let _ ← lookUpRule root
  let id ← onDerivation (Derivation.newNode root)
  onAgenda (.append (some id))
  growPath (some id) pattern

/-! ## Commands -/

/-- Applies a command. The answer of a drawing command is the drawing. -/
def execute : Command → Edit Session (Option Text)
  | .draw mode => do return some ((← get).draw mode)
  | .newRoot rule => do let _ ← newRoot rule; return none
  | .unlink node => do let _ ← unlink node; return none
  | .makeCurrent node => do makeCurrent node; return none
  | .delete node => do let _ ← delete node; return none
  | .refill => do refill; return none
  | .skip => do let _ ← skip; return none
  | .beginSelection node => do let _ ← beginSelection (node.map Int.ofNat); return none
  | .link parent child => do link parent child; return none
  | .growPath pattern node => do let _ ← growPath (node.map Int.ofNat) pattern; return none
  | .choose position => do let _ ← choose (position.map Int.ofNat); return none
  | .endSelection => do endSelection; return none
  | .chooseMatching pattern => do let _ ← chooseMatching pattern; return none

/-- Reads a command line in the mode of the session and applies it. -/
def run (text : Text) : Edit Session (Option Text) := do
  match Command.read text (← get).isSelecting with
  | .ok command => execute command
  | .error e => throw e

end Session

end GrammarTree
