import GrammarTree.Derivation.Basic

/-!
# Drawings

A derivation is drawn as an undirected graph in the language of a layout tool: one line for each
node with its label and shape, then one line for each link.

The label of a node stands between double quotes, and what would end it early is escaped. A number
in front of the label is part of it, so that a label that starts with a number and a colon looks
like a numbered one.

Nodes come in ascending order of their numbers, and so do the children in the links. Whether a node
that is to be highlighted exists is not checked: if it does not, no line has a box.

What is here:

* `DrawingMode` and `DrawingOptions`, what a drawing shows;
* `escapeQuotes`, a label inside double quotes;
* `Derivation.caption` and `Derivation.draw`.
-/

set_option autoImplicit false

namespace GrammarTree

/-- The three ways to redraw a derivation. -/
inductive DrawingMode where
  /-- Numbers on the placeholders, the current node boxed. -/
  | ids
  /-- No numbers and no box. -/
  | plain
  /-- Numbers on all nodes, the current node boxed. -/
  | full
  deriving DecidableEq, Repr

namespace DrawingMode

/-- The name of a mode. -/
def name : DrawingMode → Text
  | .ids => "ids".toList
  | .plain => "plain".toList
  | .full => "full".toList

/-- The mode with a name. -/
def ofName? (name : Text) : Option DrawingMode :=
  [DrawingMode.ids, .plain, .full].find? fun mode => mode.name = name

end DrawingMode

/-- What a drawing shows. -/
structure DrawingOptions where
  /-- Whether placeholders carry their numbers. -/
  showIds : Bool
  /-- Whether terminals carry their numbers too. -/
  showTerminalIds : Bool
  /-- The node in a box. -/
  highlight : Option NodeId
  deriving DecidableEq, Repr

namespace DrawingOptions

/-- The options in force: numbers on terminals imply numbers on placeholders. -/
def resolved (o : DrawingOptions) : DrawingOptions :=
  { o with showIds := o.showIds || o.showTerminalIds }

/-- The options of a mode; a plain drawing has no box. -/
def ofMode (mode : DrawingMode) (highlight : Option NodeId) : DrawingOptions :=
  match mode with
  | .ids => ⟨true, false, highlight⟩
  | .plain => ⟨false, false, none⟩
  | .full => ⟨true, true, highlight⟩

end DrawingOptions

/-- A label with a backslash in front of every backslash and every double quote. -/
def escapeQuotes : Text → Text
  | [] => []
  | c :: t => if c = '\\' || c = '"' then '\\' :: c :: escapeQuotes t else c :: escapeQuotes t

namespace Derivation

/-- The text shown for a node: its label, after its number if numbers are shown for it. -/
def caption (g : Derivation) (o : DrawingOptions) (id : NodeId) : Text :=
  let label := (g.label? id).getD []
  if o.showIds && (o.showTerminalIds || g.isPlaceholder id) then
    Text.ofInt id ++ ':' :: ' ' :: label
  else label

/-- The line of a node. -/
def nodeLine (g : Derivation) (o : DrawingOptions) (id : NodeId) : Text :=
  Text.ofInt id ++ " [label=\"".toList ++ escapeQuotes (g.caption o id) ++ "\" shape=".toList ++
    (if some id = o.highlight then "box".toList else "plain".toList) ++ [']']

/-- The line of a link. -/
def linkLine (link : NodeId × NodeId) : Text :=
  Text.ofInt link.1 ++ " -- ".toList ++ Text.ofInt link.2

/-- The lines of a drawing with the options in force. -/
def drawingLines (g : Derivation) (o : DrawingOptions) : List Text :=
  "graph G \x7b".toList :: g.ids.map (g.nodeLine o) ++ g.links.map linkLine ++ [['\x7d']]

/-- The drawing of a derivation. -/
def draw (g : Derivation) (o : DrawingOptions) : Text :=
  List.intercalate ['\n'] (g.drawingLines o.resolved) ++ ['\n']

end Derivation

end GrammarTree
