import GrammarTree.Grammar.Rule

/-!
# Grammars

A grammar is read from its text block by block. A block starts at a row with a separator and goes on
over the rows that are neither blank nor have a separator themselves. A malformed block gives no
rule and does not disturb the others.

The valid rules are numbered from 1 in document order, and rules of one name count together as one
merged rule. The number of a rule is what a user gives to refer to it. It stands in a margin beside
the row where the rule starts, and the margin is written with line feeds between the numbers, so
that it has its numbers on the same rows as the text that it stands beside.

What is here:

* `Block` and `blocks`, the blocks of a grammar text, with `Block.rule?`, the rule of a block;
* `Grammar.read` and `Grammar.rules`, the reading of a grammar text;
* `Grammar.toText`, the rules written back, one on each line;
* `Grammar.startLines` and `Grammar.margin`, the margin with the rule numbers;
* `Grammar.ruleNumbered?` and `Grammar.merged?`, the two ways to look a rule up.
-/

set_option autoImplicit false

namespace GrammarTree

/-! ## Blocks

Each block takes the rows that follow it, and the recursion does not skip them: none of them starts
a block, so they add nothing when their turn comes. -/

/-- A rule block: the number of its first row, counted from 1, and its joined rows. -/
structure Block where
  /-- The row where the block starts. -/
  line : Nat
  /-- The rows of the block, joined. -/
  text : Text
  deriving DecidableEq, Repr

namespace Block

/-- Whether a row belongs to the block of the row before it. -/
def continues (row : Text) : Bool := !row.isBlankOnly && !hasSeparator row

/-- The blocks of a list of rows, the first of which has the number `line`. -/
def ofRows (line : Nat) : List Text → List Block
  | [] => []
  | row :: rows =>
    if hasSeparator row then
      ⟨line, row ++ (rows.takeWhile continues).flatten⟩ :: ofRows (line + 1) rows
    else ofRows (line + 1) rows

/-- The rule that a block writes; none when it is malformed. -/
def rule? (b : Block) : Option Rule := Rule.read? b.text (some b.line)

end Block

/-- The blocks of a grammar text, in order. -/
def blocks (t : Text) : List Block := Block.ofRows 1 t.rows

namespace Grammar

/-! ## Reading and writing

The list of rules keeps a place for each block, empty where the block is malformed. The empty places
are dropped before the rules are numbered. -/

/-- The rule of every block, with none for a malformed one. -/
def read (t : Text) : List (Option Rule) := (blocks t).map Block.rule?

/-- The blocks that are not rules. -/
def malformedBlocks (t : Text) : List Block := (blocks t).filter fun b => b.rule?.isNone

/-- The rules that are there, in order. -/
def valid (rules : List (Option Rule)) : List Rule := rules.filterMap id

/-- The valid rules of a grammar text. -/
def rules (t : Text) : List Rule := valid (read t)

/-- Rules written one on each line. -/
def toText (rules : List Rule) : Text := List.intercalate ['\n'] (rules.map Rule.toText)

/-! ## Numbers -/

/-- The lines where rules start; rule number `n` is shown beside the `n`-th of them. -/
def startLines (rules : List Rule) : List Int := rules.filterMap Rule.line

/-- The margin for the rest of the lines, where `count` is the next number and `filled` is the
number of line feeds written so far. -/
def marginFrom (count : Nat) (filled : Int) : List Int → Text
  | [] => []
  | line :: lines =>
    List.replicate (line - 1 - filled).toNat '\n' ++ Text.ofNat count ++
      marginFrom (count + 1) (line - 1) lines

/-- The margin that shows the numbers 1, 2, ... on the given ascending lines. -/
def margin (lines : List Int) : Text := marginFrom 1 0 lines

/-- The rule with a number, counted from 1. -/
def ruleNumbered? (rules : List Rule) (number : Int) : Option Rule :=
  if number < 1 then none else rules[(number - 1).toNat]?

/-! ## Merged rules -/

/-- The rule that holds, in document order, the alternatives of all rules of a symbol. -/
def merged? (rules : List Rule) (symbol : Text) : Option Rule :=
  match rules.filter fun r => r.symbol = symbol with
  | [] => none
  | r :: rest => some { r with line := none, others := r.others ++ rest.flatMap Rule.alternatives }

end Grammar

end GrammarTree
