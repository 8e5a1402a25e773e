import GrammarTree.Command.Basic
import GrammarTree.Text.Blank

/-!
# The command language

A command is one short line. Outside a selection the forms are, in the order in which they are
tried:

* the keywords `r`, `o`, `f`, `n` in either case, `*` and `.`;
* `s`, blanks, a number, blanks and a pattern;
* `s`, blanks and a pattern, or `>`, optional blanks and a pattern;
* one of the operators `+`, `~`, `=` and `-`, optional blanks and a number;
* a number;
* two numbers with blanks between them, or with `--` or `->` set off by blanks.

A pattern is the rest of the line; neither it nor what follows an operator may hold a line feed.
During a selection a number picks an alternative or cancels, `first` and `last` pick the ends, a
minus sign cancels, and everything else is a quick-select pattern.

A line with an operator and no number behind it is no command, but it is the user's mistake and not
another form: the forms that are tried later are not tried for it, and its error names the operator.

What is here:

* the recognisers of the single forms;
* `Command.readDefault`, `Command.readSelection` and `Command.read`.
-/

set_option autoImplicit false

namespace GrammarTree

namespace Command

/-! ## Parts of a command

The digits of a numeral may be of any script, and there is a limit to their number. A numeral beyond
the limit is an error of its own kind, and it is the one that ends a script. -/

/-- The most digits that a numeral may have. -/
def maxDigits : Nat := 4300

/-- The number that a numeral writes, unless it is too long. -/
def readNumber (digits : Text) : Except Error Nat :=
  if digits.length ≤ maxDigits then .ok digits.readNumeral else .error .numeralTooLong

/-- Whether a text starts with a blank. -/
def startsBlank : Text → Bool
  | [] => false
  | c :: _ => isBlank c

/-- The digits at the start of a text. -/
def leadingDigits (t : Text) : Text := t.takeWhile isDigit

/-- A text without the digits at its start. -/
def afterDigits (t : Text) : Text := t.dropWhile isDigit

/-- Whether a text lies on one line. -/
def onOneLine (t : Text) : Bool := !t.contains '\n'

/-- The letter of the path commands: `s` in either case, or the long s, which is another lower case
of `S`. -/
def isPathLetter (c : Char) : Bool := c = 's' || c = 'S' || c = 'ſ'

/-- The operators that are followed by one number. -/
def isOperator (c : Char) : Bool := c = '+' || c = '~' || c = '=' || c = '-'

/-! ## Forms

A recogniser takes a trimmed line and gives the parts of the command, if the line has its form.
Which blanks a form needs, and which it may have, is decided there. -/

/-- The pattern after optional blanks: a non-empty rest of the line. -/
def pattern? (t : Text) : Option Text :=
  if t.trimLeft ≠ [] && onOneLine t.trimLeft then some t.trimLeft else none

/-- The number and the pattern of a path from a given node. -/
def pathFromNode? : Text → Option (Text × Text)
  | [] => none
  | c :: t =>
    let digits := leadingDigits (Text.trimLeft t)
    let rest := afterDigits (Text.trimLeft t)
    if isPathLetter c && startsBlank t && digits ≠ [] && startsBlank rest then
      (pattern? rest).map fun pattern => (digits, pattern)
    else none

/-- The pattern of a path from the current node. -/
def pathFromCurrent? : Text → Option Text
  | [] => none
  | c :: t => if c = '>' || isPathLetter c && startsBlank t then pattern? t else none

/-- The operator at the start of a command, and its argument. -/
def operation? : Text → Option (Char × Text)
  | [] => none
  | c :: t =>
    if isOperator c && onOneLine (Text.trimLeft t) then some (c, Text.trim t) else none

/-- A text without the connector at its start and the blanks that set it off. -/
def skipConnector : Text → Text
  | '-' :: '-' :: t => if startsBlank t then Text.trimLeft t else '-' :: '-' :: t
  | '-' :: '>' :: t => if startsBlank t then Text.trimLeft t else '-' :: '>' :: t
  | t => t

/-- The two numerals of a link, the parent first. -/
def linkEnds? (t : Text) : Option (Text × Text) :=
  let parent := leadingDigits t
  let child := skipConnector (afterDigits t).trimLeft
  if parent ≠ [] && startsBlank (afterDigits t) && child.isNumeral then some (parent, child)
  else none

/-- The command of an operator with a number. -/
def ofOperator (operator : Char) (number : Nat) : Command :=
  if operator = '+' then .newRoot number
  else if operator = '~' then .unlink number
  else if operator = '=' then .makeCurrent number
  else .delete number

/-- The command that a keyword stands for. -/
def ofKeyword? (t : Text) : Option Command :=
  match t.map Char.toLower with
  | ['r'] => some (.draw .ids)
  | ['o'] => some (.draw .plain)
  | ['f'] => some (.draw .full)
  | ['*'] => some .refill
  | ['n'] => some .skip
  | ['.'] => some (.beginSelection none)
  | _ => none

/-! ## Reading -/

/-- Reads an operator with its argument; `command` is the whole command. -/
def readOperation (command : Text) (operator : Char) (argument : Text) : Except Error Command :=
  if argument = [] then
    .error (.invalidCommand command (CommandFault.missingNumber operator).reason)
  else if argument.isNumeral then do
    let number ← readNumber argument
    return ofOperator operator number
  else .error (.invalidCommand command (CommandFault.notNumber operator argument).reason)

/-- Reads a trimmed command outside a selection. -/
def readDefault (t : Text) : Except Error Command :=
  match ofKeyword? t with
  | some command => .ok command
  | none =>
  match pathFromNode? t with
  | some (digits, pattern) => do
    let node ← readNumber digits
    return .growPath pattern (some node)
  | none =>
  match pathFromCurrent? t with
  | some pattern => .ok (.growPath pattern none)
  | none =>
  match operation? t with
  | some (operator, argument) => readOperation t operator argument
  | none =>
  if t.isNumeral then do
    let node ← readNumber t
    return .beginSelection (some node)
  else
  match linkEnds? t with
  | some (parentDigits, childDigits) => do
    let parent ← readNumber parentDigits
    let child ← readNumber childDigits
    return .link parent child
  | none => .error (.invalidCommand t (CommandFault.unknown t).reason)

/-- Reads a trimmed command during a selection. -/
def readSelection (t : Text) : Except Error Command :=
  if t.isNumeral then do
    let number ← readNumber t
    return if number < 1 then .endSelection else .choose (some number)
  else if t.map Char.toLower = "first".toList then .ok (.choose (some 1))
  else if t.map Char.toLower = "last".toList then .ok (.choose none)
  else if t.head? = some '-' then .ok .endSelection
  else .ok (.chooseMatching t)

/-- Reads one command line; what it means depends on whether an alternative is being chosen. -/
def read (text : Text) (selecting : Bool) : Except Error Command :=
  if text.trim = [] then .error (.invalidCommand text CommandFault.empty.reason)
  else if selecting then readSelection text.trim
  else readDefault text.trim

end Command

end GrammarTree
