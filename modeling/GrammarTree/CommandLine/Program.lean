import GrammarTree.CommandLine.Folder
import GrammarTree.CommandLine.Invocation
import GrammarTree.Grammar.Listing
import GrammarTree.Session.Script

/-!
# The program

What the program prints for a command line. Files are given as a function from paths to texts, so
that the program itself is a function too.

A job ends with an exit code, a text for the output and a text for the errors. It may also break off
without them, for one of four reasons: a file that is not UTF-8, a path with a null character, a
numeral with too many digits, or a pattern that was left out.

The notes of a job go to its errors in the order in which they arise, together with the failures of
a script. What is shown of them depends on the verbosity, and the exit code never does.

What is here:

* `Outcome`, an exit code with what was printed, or the reason for which the program broke off;
* `Program.noteLines` and `Program.errorLine`, what goes to the errors;
* one function for each job, and `Program.run`, all of it together.
-/

set_option autoImplicit false

namespace GrammarTree

/-- Why the program broke off. -/
inductive BreakOff where
  /-- A file is not UTF-8. -/
  | notUtf8
  /-- The path of a file holds a null character. -/
  | nullInPath
  /-- A command holds a numeral with too many digits. -/
  | numeralTooLong
  /-- The pattern of a path was left out. -/
  | noPattern
  deriving DecidableEq, Repr

/-- How the program ended. -/
inductive Outcome where
  /-- The command line itself ended it. -/
  | usage (exit : Nat)
  /-- It did its job. -/
  | finished (exit : Nat) (output errors : Text)
  /-- It broke off. -/
  | brokeOff (reason : BreakOff)
  deriving DecidableEq, Repr

namespace Program

/-- The files that the program can read, by their paths. -/
abbrev Reader := Text → Except ReadFault Text

/-! ## Notes -/

/-- Whether a note is shown: all of them on request, else the warnings, else none. -/
def isShown (v : Verbosity) (n : Note) : Bool :=
  v.verbose || !v.quiet && n.level = .warning

/-- The lines of the notes that are shown. -/
def noteLines (v : Verbosity) (notes : List Note) : Text :=
  Text.ofLines ((notes.filter (isShown v)).map Note.line)

/-- The line for an error that ends a job. -/
def errorLine (message : Text) : Text := "Error: ".toList ++ message ++ ['\n']

/-- Goes on with the text of a file, unless it cannot be read. -/
def withFile (read : Reader) (path : Text) (job : Text → Outcome) : Outcome :=
  match read path with
  | .ok t => job t
  | .error (.cannotOpen fault) => .finished 1 [] (errorLine (fault.message path))
  | .error .nullInPath => .brokeOff .nullInPath
  | .error .notUtf8 => .brokeOff .notUtf8

/-! ## Jobs

The two jobs that draw work on a session. A script runs its lines in it, and a path is a new root
with one path from it; quiet leaves out their drawings and nothing else of the output. -/

/-- The rules of a grammar text in some form. -/
def listing (t : Text) : ListingFormat → Text
  | .numbered => Grammar.numberedListing (Grammar.rules t)
  | .json => Grammar.jsonListing (Grammar.rules t)
  | .normalized => Grammar.toText (Grammar.rules t) ++ ['\n']
  | .margin => Grammar.marginListing t

/-- Lists the rules of a grammar. -/
def listRules (v : Verbosity) (format : ListingFormat) (grammar : Text) : Outcome :=
  .finished 0 (listing grammar format) (noteLines v (Grammar.notes grammar))

/-- Shows the reverse index of a grammar. -/
def showIndex (v : Verbosity) (grammar : Text) : Outcome :=
  .finished 0 (Index.ofRules (Grammar.rules grammar)).listing
    (noteLines v (Grammar.notes grammar))

/-- What an event of a script adds to the errors. -/
def eventErrors (v : Verbosity) : ScriptEvent → Text
  | .note n => noteLines v [n]
  | .output _ => []
  | .failure line e => "line ".toList ++ Text.ofNat line ++ ':' :: ' ' :: e.message ++ ['\n']

/-- Runs a script over a grammar and draws the result. -/
def runScript (v : Verbosity) (mode : DrawingMode) (grammar script : Text) : Outcome :=
  let t := (Session.start grammar).playScript script
  if t.completed then
    .finished (if t.hasFailure then 1 else 0)
      (if v.quiet then [] else t.output ++ t.final.draw mode)
      (t.events.flatMap (eventErrors v))
  else .brokeOff .numeralTooLong

/-- The symbol of the root that an operand names, with or without its brackets. A name that was left
out is an empty list of names, written in square brackets. -/
def rootSymbol (root : Option Text) : Text :=
  let name := root.getD ['[', ']']
  if isPlaceholder name then name else symbolOf name

/-- The notes of a path from a new root: the grammar is read once for the rule of the root, and
once more for the search. -/
def rootPathNotes (grammar root pattern : Text) : List Note :=
  Grammar.notes grammar ++
    if (Grammar.merged? (Grammar.rules grammar) root).isNone then []
    else
      let s : Session := { Session.start grammar with derivation := Derivation.empty.grow root }
      Grammar.notes grammar ++ s.chainNotes 0 pattern

/-- What is printed when no path can be grown. -/
def failPath (v : Verbosity) (notes : List Note) (e : Error) : Outcome :=
  .finished 1 [] (noteLines v notes ++ errorLine e.message)

/-- Grows one path from a new root and draws it. Without a pattern, the program breaks off as soon
as the rule of the root is found. -/
def growPath (v : Verbosity) (mode : DrawingMode) (grammar root : Text) : Option Text → Outcome
  | some pattern =>
    let notes := rootPathNotes grammar root pattern
    match Session.growRootPath root pattern (Session.start grammar) with
    | .ok growth s =>
      .finished 0 (if v.quiet then [] else s.draw mode)
        (noteLines v (notes ++ [.resolved growth.chain.values]))
    | .error e _ => failPath v notes e
  | none =>
    match Session.lookUpRule root (Session.start grammar) with
    | .ok _ _ => .brokeOff .noPattern
    | .error e _ => failPath v (Grammar.notes grammar) e

/-- Does what an invocation asks for. -/
def perform (read : Reader) (input : Text) (i : Invocation) : Outcome :=
  match i.job with
  | .rules grammar format => withFile read grammar (listRules i.verbosity format)
  | .index grammar => withFile read grammar (showIndex i.verbosity)
  | .run grammar none mode =>
    withFile read grammar fun grammar => runScript i.verbosity mode grammar input
  | .run grammar (some script) mode =>
    withFile read grammar fun grammar =>
      withFile read script fun script => runScript i.verbosity mode grammar script
  | .path grammar root pattern mode =>
    withFile read grammar fun grammar =>
      growPath i.verbosity mode grammar (rootSymbol root) pattern

/-- What the program does for a command line, with the text of standard input. -/
def run (read : Reader) (input : Text) (args : List Text) : Outcome :=
  match Invocation.read args with
  | .error exit => .usage exit
  | .ok i => perform read (Text.unifyBreaks input) i

/-- The files that a job reads, in order. -/
def paths : Job → List Text
  | .rules grammar _ => [grammar]
  | .index grammar => [grammar]
  | .run grammar script _ => grammar :: script.toList
  | .path grammar _ _ _ => [grammar]

end Program

end GrammarTree
