import GrammarTree.Text.Basic

/-!
# Flags

The words of a command line are operands or flags. A flag has a long name, which may be shortened as
long as it stays unique, or a short one. Short names may be run together, with or without an equals
sign behind the first of them; apart from that, no flag takes a value.

What a word is depends on the names of the flags at the place where it stands: in front of the
command the flags are other ones than behind it. Not every word with a minus sign at its start is a
flag. A negative number is an operand, and so is a word with a space in it, unless it has the name
of a flag or begins like one.

The tables of names are in the order in which the flags were declared, and a name is looked up in
them from the front. Two names of one flag are two entries.

What is here:

* `Flag` with its names, and `Flag.conflicts`;
* `Word` and `Word.read`, which tells what a word of a command line is.
-/

set_option autoImplicit false

namespace GrammarTree

/-- A flag of the command line. -/
inductive Flag where
  /-- Show how the program is used. -/
  | help
  /-- Show the version of the program. -/
  | version
  /-- Show all notes. -/
  | verbose
  /-- Show neither drawings nor warnings. -/
  | quiet
  /-- List rules as JSON. -/
  | json
  /-- List rules as grammar text. -/
  | normalized
  /-- List the grammar text with rule numbers in the margin. -/
  | gutter
  /-- Draw without numbers. -/
  | plain
  /-- Draw with numbers on all nodes. -/
  | full
  deriving DecidableEq, Repr

/-- The names of flags. -/
abbrev FlagNames := List (Text × Flag)

namespace Flag

/-- The flags that every command has. -/
def helpNames : FlagNames := [("-h".toList, help), ("--help".toList, help)]

/-- The flags in front of the command. -/
def programNames : FlagNames :=
  helpNames ++ [("--version".toList, version), ("-v".toList, verbose),
    ("--verbose".toList, verbose), ("-q".toList, quiet), ("--quiet".toList, quiet)]

/-- The flags of the command that lists rules. -/
def listingNames : FlagNames :=
  helpNames ++ [("-j".toList, json), ("--json".toList, json), ("--normalized".toList, normalized),
    ("--gutter".toList, gutter)]

/-- The flags of the commands that draw. -/
def drawingNames : FlagNames :=
  helpNames ++ [("--plain".toList, plain), ("--full".toList, full)]

/-- Whether a flag chooses the form of a listing. -/
def isListing (f : Flag) : Bool := f = json || f = normalized || f = gutter

/-- Whether a flag chooses the form of a drawing. -/
def isDrawing (f : Flag) : Bool := f = plain || f = full

/-- Whether two flags exclude each other. -/
def conflicts (f g : Flag) : Bool :=
  f ≠ g && (f.isListing && g.isListing || f.isDrawing && g.isDrawing)

end Flag

/-- What a word of a command line is. -/
inductive Word where
  /-- An operand. -/
  | operand
  /-- One or more flags. -/
  | flags (fs : List Flag)
  /-- A flag with a value, or with letters behind it that are no flags. -/
  | refused
  /-- The beginning of several long names. -/
  | ambiguous
  /-- A name of no flag. -/
  | unknown
  deriving DecidableEq, Repr

namespace Word

/-- The word after which all words are operands. -/
def terminator : Text := ['-', '-']

/-- The flags whose letters are run together, unless one of the letters is no flag. -/
def letters? (names : FlagNames) (letters : Text) : Option (List Flag) :=
  letters.mapM fun c => names.lookup ['-', c]

/-- A short name with more behind it. An equals sign may stand in front of further letters. -/
def withLetters (names : FlagNames) (f : Flag) (rest : Text) : Word :=
  let letters := if rest.head? = some '=' then rest.tail else rest
  match letters? names letters with
  | none | some [] => .refused
  | some fs => .flags (f :: fs)

/-- Whether a text is one or more digits, apart from a line feed at its end. -/
def isDigits (t : Text) : Bool :=
  let rest := t.dropWhile isDigit
  t.takeWhile isDigit ≠ [] && (rest = [] || rest = ['\n'])

/-- Whether a minus sign in front of a text makes it a negative number. -/
def isMagnitude (t : Text) : Bool :=
  isDigits t ||
    match t.dropWhile isDigit with
    | '.' :: fraction => isDigits fraction
    | _ => false

/-- What a word is that starts with a minus sign and has no flag's name: negative numbers and
phrases are operands. -/
def nameless (t : Text) : Word :=
  if isMagnitude t.tail || t.contains ' ' then .operand else .unknown

/-- What a word is that starts with two minus signs: what stands in front of an equals sign may be
the beginning of a long name. -/
def ofBeginning (names : FlagNames) (t : Text) : Word :=
  let name := t.takeWhile (· ≠ '=')
  if (names.lookup name).isSome then .refused
  else
    match names.filter fun entry => name.isPrefixOf entry.1 with
    | [] => nameless t
    | [entry] => if t.contains '=' then .refused else .flags [entry.2]
    | _ => .ambiguous

/-- What a word is, given the names of the flags. -/
def read (names : FlagNames) (t : Text) : Word :=
  match t with
  | '-' :: c :: rest =>
    match names.lookup t with
    | some f => .flags [f]
    | none =>
      if c = '-' then ofBeginning names t
      else
        match names.lookup ['-', c] with
        | some f => withLetters names f rest
        | none => nameless t
  | _ => .operand

end Word

end GrammarTree
