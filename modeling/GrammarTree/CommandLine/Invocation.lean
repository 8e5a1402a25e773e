import GrammarTree.CommandLine.Flag
import GrammarTree.Derivation.Drawing

/-!
# Invocations

A command line names a command with its operands and flags. A command line that cannot be read, or
that only asks for help, ends the program with an exit code.

The flags in front of the command and those behind it are different ones, and each part is read with
its own. The words are taken in order, and the first that ends the program does so with its own exit
code, even if a later one is wrong. A word that the command has no use for is only noted, and
reported when everything was read.

What is here:

* `Invocation` and `Job`, what the program is asked to do;
* `Invocation.takeFlags`, which flags go together;
* `Invocation.readCommand`, the operands and the flags of a command;
* `Invocation.read`, the reading of a command line.
-/

set_option autoImplicit false

namespace GrammarTree

/-- The form of a list of rules. -/
inductive ListingFormat where
  /-- One numbered rule on each line. -/
  | numbered
  /-- A JSON list. -/
  | json
  /-- Grammar text. -/
  | normalized
  /-- The grammar text with the rule numbers in its margin. -/
  | margin
  deriving DecidableEq, Repr

/-- What the program is asked to do. -/
inductive Job where
  /-- List the rules of a grammar. -/
  | rules (grammar : Text) (format : ListingFormat)
  /-- Show the reverse index of a grammar. -/
  | index (grammar : Text)
  /-- Run a script, from standard input if none is named, and draw the result. -/
  | run (grammar : Text) (script : Option Text) (mode : DrawingMode)
  /-- Grow one path from a new root and draw it. -/
  | path (grammar : Text) (root pattern : Option Text) (mode : DrawingMode)
  deriving DecidableEq, Repr

/-- How much the program shows. -/
structure Verbosity where
  /-- Whether all notes are shown. -/
  verbose : Bool
  /-- Whether drawings are left out, and warnings too unless all notes are shown. -/
  quiet : Bool
  deriving DecidableEq, Repr

/-- A command line that was read. -/
structure Invocation where
  /-- How much to show. -/
  verbosity : Verbosity
  /-- What to do. -/
  job : Job
  deriving DecidableEq, Repr

namespace Invocation

/-- The exit code of a command line that cannot be read. -/
def usageExit : Nat := 2

/-- The exit code after help or the version. -/
def helpExit : Nat := 0

/-! ## Flags -/

/-- Takes flags one by one, on top of those already taken. Asking for help or for the version ends
the program at once, and so does a flag that excludes an earlier one. -/
def takeFlags (taken : List Flag) : List Flag → Except Nat (List Flag)
  | [] => .ok taken
  | f :: fs =>
    if f = .help || f = .version then .error helpExit
    else if taken.any f.conflicts then .error usageExit
    else takeFlags (f :: taken) fs

/-- Whether a word in front of the terminator may stand for several flags. -/
def hasAmbiguity (names : FlagNames) (args : List Text) : Bool :=
  (args.takeWhile (· ≠ Word.terminator)).any fun arg => Word.read names arg = .ambiguous

/-! ## Operands

Operands and flags may be mixed, with limits. Once the required operands are there, a flag ends the
operands, and an operand behind it is one too many. Behind the terminator every word is an operand,
however it starts, and the place of the terminator decides whether a second one leaves an operand
out. -/

/-- How many operands a command takes. -/
structure Arity where
  /-- The operands that must be there. -/
  required : Nat
  /-- The operands that may be there besides. -/
  optional : Nat
  deriving DecidableEq, Repr

/-- The words of a command that were taken so far. -/
structure Progress where
  /-- The operands; one that is left out keeps its place. -/
  operands : List (Option Text)
  /-- The flags, the last one first. -/
  flags : List Flag
  /-- Whether no operand was taken since the last flag. -/
  afterFlag : Bool
  /-- Whether all operands that can be taken were taken before the last flag: once the required ones
  are there, a flag ends the operands. -/
  closed : Bool
  /-- Whether there was a word that the command has no use for. -/
  surplus : Bool
  deriving DecidableEq, Repr

namespace Progress

/-- Nothing was taken yet. -/
def start : Progress := ⟨[], [], true, false, false⟩

/-- Takes an operand. -/
def operand (a : Arity) (arg : Option Text) (p : Progress) : Progress :=
  if p.closed || a.required + a.optional ≤ p.operands.length then { p with surplus := true }
  else { p with operands := p.operands ++ [arg], afterFlag := false }

/-- Takes a word behind the terminator: there, a second terminator leaves an operand out. -/
def lateOperand (a : Arity) (arg : Text) (p : Progress) : Progress :=
  p.operand a (if arg = Word.terminator then none else some arg)

/-- Takes the words behind the terminator. The terminator belongs to the operand in front of it; at
the start and behind a flag it belongs to the next operand, which is then taken as it is. -/
def terminated (a : Arity) (args : List Text) (p : Progress) : Progress :=
  if p.closed then { p with surplus := true }
  else
    match args with
    | arg :: args =>
      if p.afterFlag then args.foldl (fun p arg => p.lateOperand a arg) (p.operand a (some arg))
      else (arg :: args).foldl (fun p arg => p.lateOperand a arg) p
    | [] => p

/-- Notes that a flag follows the operands. -/
def beforeFlag (a : Arity) (p : Progress) : Progress :=
  { p with afterFlag := true, closed := decide (a.required ≤ p.operands.length) }

end Progress

/-- Takes the words of a command in order. -/
def scan (names : FlagNames) (a : Arity) : List Text → Progress → Except Nat Progress
  | [], p => .ok p
  | arg :: args, p =>
    if arg = Word.terminator then .ok (p.terminated a args)
    else
      match Word.read names arg with
      | .operand => scan names a args (p.operand a (some arg))
      | .flags fs =>
        match takeFlags p.flags fs with
        | .ok flags => scan names a args { p.beforeFlag a with flags := flags }
        | .error exit => .error exit
      | .unknown => scan names a args { p.beforeFlag a with surplus := true }
      | .refused | .ambiguous => .error usageExit

/-- The operands and the flags of a command. -/
def readCommand (names : FlagNames) (a : Arity) (args : List Text) :
    Except Nat (List (Option Text) × List Flag) :=
  if hasAmbiguity names args then .error usageExit
  else
    match scan names a args .start with
    | .error exit => .error exit
    | .ok p =>
      if p.surplus || p.operands.length < a.required then .error usageExit
      else .ok (p.operands, p.flags)

/-! ## Commands -/

/-- The form of a listing that flags choose. -/
def listingFormat (flags : List Flag) : ListingFormat :=
  if .json ∈ flags then .json
  else if .normalized ∈ flags then .normalized
  else if .gutter ∈ flags then .margin
  else .numbered

/-- The form of a drawing that flags choose. -/
def drawingMode (flags : List Flag) : DrawingMode :=
  if .plain ∈ flags then .plain else if .full ∈ flags then .full else .ids

/-- Reads the words of a command. -/
def readJob (command : Text) (args : List Text) : Except Nat Job :=
  if command = "rules".toList then
    match readCommand Flag.listingNames ⟨1, 0⟩ args with
    | .ok ([some grammar], flags) => .ok (.rules grammar (listingFormat flags))
    | .ok _ => .error usageExit
    | .error exit => .error exit
  else if command = "index".toList then
    match readCommand Flag.helpNames ⟨1, 0⟩ args with
    | .ok ([some grammar], _) => .ok (.index grammar)
    | .ok _ => .error usageExit
    | .error exit => .error exit
  else if command = "run".toList then
    match readCommand Flag.drawingNames ⟨1, 1⟩ args with
    | .ok ([some grammar], flags) => .ok (.run grammar none (drawingMode flags))
    | .ok ([some grammar, script], flags) => .ok (.run grammar script (drawingMode flags))
    | .ok _ => .error usageExit
    | .error exit => .error exit
  else if command = "path".toList then
    match readCommand Flag.drawingNames ⟨3, 0⟩ args with
    | .ok ([some grammar, root, pattern], flags) =>
      .ok (.path grammar root pattern (drawingMode flags))
    | .ok _ => .error usageExit
    | .error exit => .error exit
  else .error usageExit

/-- Takes the flags in front of the command. `surplus` tells whether an unknown flag was met: it is
reported only after the rest of the command line was read. -/
def readProgram (flags : List Flag) (surplus : Bool) : List Text → Except Nat Invocation
  | [] => .error (if surplus then usageExit else helpExit)
  | arg :: args =>
    if arg = Word.terminator then .error usageExit
    else
      match Word.read Flag.programNames arg with
      | .operand =>
        match readJob arg args with
        | .error exit => .error exit
        | .ok job =>
          if surplus then .error usageExit
          else .ok ⟨⟨decide (.verbose ∈ flags), decide (.quiet ∈ flags)⟩, job⟩
      | .flags fs =>
        match takeFlags flags fs with
        | .ok flags => readProgram flags surplus args
        | .error exit => .error exit
      | .unknown => readProgram flags true args
      | .refused | .ambiguous => .error usageExit

/-- Reads a command line, or gives the exit code with which it ends the program. -/
def read (args : List Text) : Except Nat Invocation :=
  if hasAmbiguity Flag.programNames args then .error usageExit else readProgram [] false args

end Invocation

end GrammarTree
