import GrammarTree.Symbol

/-!
# Errors

What can go wrong, by cause, and the message that the user reads.

An error holds the data of its message and not the message itself, so that a theorem can say which
error an operation ends with and what is in it. The wording is a function of the error. The errors
of a rule, a selection and a command hold their reason as a text, because it is shown in that form;
the faults that the reason comes from are listed here with their wordings.

An error shows its location below its summary, one part on each line. Most errors have none, because
their summary names the node or the rule.

What is here:

* `Location`, the lines under a message that say where the mistake is;
* the faults of a rule, a selection, a path and a command, each with its wording;
* `Error` with `Error.message`, the summary of the error and, below it, its location.
-/

set_option autoImplicit false

namespace GrammarTree

/-- The number of a node. The numbers that a user writes need not belong to any node. -/
abbrev NodeId := Int

/-! ## Locations -/

/-- Where an error arose; each part may be unknown. -/
structure Location where
  /-- The line of the grammar text where the rule starts. -/
  grammarLine : Option Int
  /-- The node that the failed operation referred to. -/
  node : Option NodeId
  /-- The command as it was typed. -/
  command : Option Text
  deriving DecidableEq, Repr

namespace Location

/-- The known parts of a location, one line each. An empty command is not shown. -/
def lines (l : Location) : List Text :=
  (l.grammarLine.map fun line => "  at grammar line ".toList ++ Text.ofInt line).toList ++
    (l.node.map fun id => "  on node ".toList ++ Text.ofInt id).toList ++
    ((l.command.filter fun command => !command.isEmpty).map fun command =>
      "  command: ".toList ++ command).toList

/-- A location as indented lines; empty when nothing is known. -/
def text (l : Location) : Text := List.intercalate ['\n'] l.lines

/-- A message with its location on the lines below it. -/
def below (l : Option Location) (summary : Text) : Text :=
  match l.map text with
  | none | some [] => summary
  | some lines => summary ++ '\n' :: lines

end Location

/-! ## Causes

Each part of the program has its own causes. A search for a path fails with a path fault and nothing
else, and the type of the search says so. -/

/-- Why a text is not a rule. -/
inductive RuleFault where
  /-- The number of separators in the text is not one. -/
  | separators (count : Nat)
  /-- What stands before the separator is not a name in angle brackets. -/
  | leftSide
  /-- Nothing stands between the separator and the first splitting pipe. -/
  | emptyFirst
  deriving DecidableEq, Repr

/-- The wording of a rule fault. -/
def RuleFault.reason : RuleFault → Text
  | .separators count => "expected exactly one '::=', found ".toList ++ Text.ofNat count
  | .leftSide => "left side must be a <name>".toList
  | .emptyFirst => "first alternative is empty".toList

/-- Why no alternative can be chosen. -/
inductive SelectionFault where
  /-- There is no current node to start from. -/
  | noCurrentNode
  /-- No selection has been started. -/
  | notSelecting
  /-- The position is outside the list of alternatives. -/
  | noAlternative (position : Int)
  /-- No alternative matches the pattern. -/
  | noMatch (pattern : Text)
  /-- Several alternatives match the pattern. -/
  | severalMatches (pattern : Text) (count : Nat)
  deriving DecidableEq, Repr

/-- The wording of a selection fault. -/
def SelectionFault.reason : SelectionFault → Text
  | .noCurrentNode => "there is no current node".toList
  | .notSelecting => "no alternative is being chosen".toList
  | .noAlternative position => "there is no alternative ".toList ++ Text.ofInt position
  | .noMatch pattern => '\'' :: pattern ++ "' matches no alternative".toList
  | .severalMatches pattern count =>
    '\'' :: pattern ++ "' matches ".toList ++ Text.ofNat count ++
      " alternatives, expected one".toList

/-- Why a text is not a command. -/
inductive CommandFault where
  /-- The text is blank. -/
  | empty
  /-- An operator without anything after it. -/
  | missingNumber (operator : Char)
  /-- An operator with something else than a number after it. -/
  | notNumber (operator : Char) (argument : Text)
  /-- No command has this form. -/
  | unknown (command : Text)
  deriving DecidableEq, Repr

/-- The wording of a command fault. -/
def CommandFault.reason : CommandFault → Text
  | .empty => "Empty command".toList
  | .missingNumber operator => '\'' :: operator :: "' needs a number".toList
  | .notNumber operator argument =>
    '\'' :: operator :: "' needs a number, got '".toList ++ argument ++ ['\'']
  | .unknown command => "Unknown command: ".toList ++ command

/-- Why there is no simple path from a node to a value. -/
inductive PathFault where
  /-- The path would end where it starts. -/
  | alreadyThere (node : NodeId) (label : Text)
  /-- The pattern matches these values instead of exactly one. -/
  | seed (pattern : Text) (matching : List Text)
  /-- The rules that produce the value and are not yet on the path are these instead of one. -/
  | severalProducers (value : Text) (candidates : List Text)
  /-- No rule produces the value. -/
  | noProducer (value : Text)
  deriving DecidableEq, Repr

/-- The wording of a path fault. -/
def PathFault.summary : PathFault → Text
  | .alreadyThere node label =>
    "Node ".toList ++ Text.ofInt node ++ " is already '".toList ++ label ++ ['\'']
  | .seed pattern [] => "Pattern '".toList ++ pattern ++ "' matches no production".toList
  | .seed pattern matching =>
    "Pattern '".toList ++ pattern ++ "' matches ".toList ++ Text.ofNat matching.length ++
      " productions: ".toList ++ Text.commaSeparated matching
  | .severalProducers value [] =>
    "No simple path: '".toList ++ value ++
      "' is only produced by rules already on the path".toList
  | .severalProducers value candidates =>
    "No simple path: '".toList ++ value ++ "' is produced by several rules: ".toList ++
      Text.commaSeparated candidates
  | .noProducer value =>
    "No simple path: nothing produces '".toList ++ value ++ ['\'']

/-! ## Errors -/

/-- An error that ends an operation. -/
inductive Error where
  /-- A text is not a rule. -/
  | malformedRule (text reason : Text) (line : Option Int)
  /-- An operation needs a node that does not exist. -/
  | noSuchNode (node : NodeId) (operation : Text)
  /-- A link would make a node its own ancestor. -/
  | cyclicLink (parent child : NodeId)
  /-- There is no simple path. -/
  | path (fault : PathFault)
  /-- No valid rule has this number. -/
  | noRuleNumbered (number : Int)
  /-- No valid rule has this symbol. -/
  | noRuleFor (symbol : Text)
  /-- No alternative can be chosen. -/
  | selection (reason : Text)
  /-- A text is not a command. -/
  | invalidCommand (command reason : Text)
  /-- A command holds a numeral with more digits than are read. -/
  | numeralTooLong
  deriving DecidableEq, Repr

namespace Error

/-- What went wrong, without the place. -/
def summary : Error → Text
  | .malformedRule text reason _ => "Malformed rule '".toList ++ text ++ "': ".toList ++ reason
  | .noSuchNode node operation =>
    "Cannot ".toList ++ operation ++ ": there is no node ".toList ++ Text.ofInt node
  | .cyclicLink parent child =>
    "Cannot link ".toList ++ Text.ofInt parent ++ " -- ".toList ++ Text.ofInt child ++
      ": node ".toList ++ Text.ofInt parent ++ " descends from node ".toList ++ Text.ofInt child
  | .path fault => fault.summary
  | .noRuleNumbered number => "Could not get production rule ".toList ++ Text.ofInt number
  | .noRuleFor symbol => "There is no production rule for ".toList ++ symbol
  | .selection reason => "Invalid selection: ".toList ++ reason
  | .invalidCommand _ reason => reason
  | .numeralTooLong => "Number has too many digits".toList

/-- Where it went wrong, for the errors that tell. -/
def location : Error → Option Location
  | .malformedRule _ _ (some line) => some ⟨some line, none, none⟩
  | .invalidCommand [] _ => none
  | .invalidCommand command _ => some ⟨none, none, some command⟩
  | _ => none

/-- The message shown to the user. -/
def message (e : Error) : Text := Location.below e.location e.summary

/-- Whether an error says that there is no simple path. -/
def isPathFault : Error → Bool
  | .path _ => true
  | _ => false

end Error

end GrammarTree
