import GrammarTree.Derivation.Drawing
import GrammarTree.Text.Quoted

/-!
# Commands

The commands of an editing session. The numbers that a user can write are natural numbers.

A number that a command may leave out is an `Option`: without it a command works on the current
node, or picks the last alternative. Whether a number belongs to a node or to a rule is not known
here and is found out when the command is applied.

A command is what is left of a line when it has been read. It no longer tells how it was spelled, so
two lines with the same command do the same. Only the notes show a command again, and they show its
fields and not the line.

What is here:

* `Command`, with one constructor for each kind of command;
* `Command.record`, the form in which the debugging notes show a command.
-/

set_option autoImplicit false

namespace GrammarTree

/-- One command of an editing session. -/
inductive Command where
  /-- Draws the derivation. -/
  | draw (mode : DrawingMode)
  /-- Creates a root node labelled with the symbol of a numbered rule. -/
  | newRoot (rule : Nat)
  /-- Takes a node away from its parent. -/
  | unlink (node : Nat)
  /-- Makes a node the current node. -/
  | makeCurrent (node : Nat)
  /-- Deletes a node and its descendants. -/
  | delete (node : Nat)
  /-- Refills the agenda with the incomplete nodes. -/
  | refill
  /-- Drops the current node from the agenda. -/
  | skip
  /-- Starts choosing an alternative for a node, the current one if none is given. -/
  | beginSelection (node : Option Nat)
  /-- Makes one node the parent of another. -/
  | link (parent child : Nat)
  /-- Grows a path from a node, the current one if none is given. -/
  | growPath (pattern : Text) (node : Option Nat)
  /-- Picks an alternative by its position, counted from 1, or the last one. -/
  | choose (position : Option Nat)
  /-- Leaves the selection. -/
  | endSelection
  /-- Picks the one alternative that a pattern matches. -/
  | chooseMatching (pattern : Text)
  deriving DecidableEq, Repr

namespace Command

/-- The numeral of an optional number. -/
def optionText (n : Option Nat) : Text := (n.map Text.ofNat).getD "None".toList

/-- A command with its fields in order, as the debugging notes show it. -/
def record : Command → Text
  | .draw .ids => "RenderCommand(mode=<RenderMode.IDS: 'ids'>)".toList
  | .draw .plain => "RenderCommand(mode=<RenderMode.PLAIN: 'plain'>)".toList
  | .draw .full => "RenderCommand(mode=<RenderMode.FULL: 'full'>)".toList
  | .newRoot rule => "NewNodeCommand(rule_number=".toList ++ Text.ofNat rule ++ [')']
  | .unlink node => "UnlinkCommand(node_id=".toList ++ Text.ofNat node ++ [')']
  | .makeCurrent node => "FocusCommand(node_id=".toList ++ Text.ofNat node ++ [')']
  | .delete node => "DeleteCommand(node_id=".toList ++ Text.ofNat node ++ [')']
  | .refill => "RefreshCommand()".toList
  | .skip => "NextCommand()".toList
  | .beginSelection node => "SelectCommand(node_id=".toList ++ optionText node ++ [')']
  | .link parent child =>
    "LinkCommand(parent_id=".toList ++ Text.ofNat parent ++ ", child_id=".toList ++
      Text.ofNat child ++ [')']
  | .growPath pattern node =>
    "PathCommand(pattern=".toList ++ pattern.quoted ++ ", node_id=".toList ++ optionText node ++
      [')']
  | .choose position => "ChooseCommand(index=".toList ++ optionText position ++ [')']
  | .endSelection => "CancelCommand()".toList
  | .chooseMatching pattern => "QuickSelectCommand(pattern=".toList ++ pattern.quoted ++ [')']

end Command

end GrammarTree
