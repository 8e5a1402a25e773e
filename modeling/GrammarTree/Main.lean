import GrammarTree.CommandLine.Program

/-!
# The executable

Reads the files that a job needs, runs the program and prints what it says. This is the only file in
which anything happens: the files are read before the program runs, by the same function that tells
the program its job, and what is printed is what the program gives.

A file is read as its bytes, and the text in them is decoded by `decodeFile`, so that what counts as
UTF-8 and what becomes of line ends is not left to the system. The reason for which a file cannot be
opened is told by the system, and only the four that the program knows are kept apart.

What is here:

* `Executable.readFile` and `Executable.readFiles`, the reading of files;
* `Executable.usage` and `Executable.reasonText`, what is printed besides the output of a job;
* `main`.
-/

set_option autoImplicit false

namespace GrammarTree

namespace Executable

/-- How the program is used. -/
def usage : String :=
  "usage: [-v] [-q] rules FILE [--json | --normalized | --gutter]\n" ++
  "       [-v] [-q] index FILE\n" ++
  "       [-v] [-q] run FILE [SCRIPT] [--plain | --full]\n" ++
  "       [-v] [-q] path FILE ROOT PATTERN [--plain | --full]\n"

/-- The fault behind a failed attempt to read a file. A folder can be opened, and only then fails to
be read: that error names no file. -/
def faultOf : IO.Error → OpenFault
  | .inappropriateType none .. => .isFolder
  | .inappropriateType .. => .notFolder
  | .invalidArgument .. => .nameTooLong
  | _ => .missing

/-- Reads a file of the file system. -/
def readFile (path : Text) : IO (Except ReadFault Text) := do
  if path.contains '\x00' then return .error .nullInPath
  try
    let bytes ← IO.FS.readBinFile (String.ofList (FilePath.normal path))
    return decodeFile bytes
  catch e =>
    return .error (.cannotOpen (faultOf e))

/-- Reads the files that a command line needs. -/
def readFiles (args : List Text) : IO (List (Text × Except ReadFault Text)) :=
  match Invocation.read args with
  | .error _ => return []
  | .ok i => (Program.paths i.job).mapM fun path => return (path, ← readFile path)

/-- Whether a command line takes its script from standard input. -/
def readsInput (args : List Text) : Bool :=
  match Invocation.read args with
  | .ok { job := .run _ none _, .. } => true
  | _ => false

/-- The reason for which the program broke off. -/
def reasonText : BreakOff → String
  | .notUtf8 => "Error: a file is not UTF-8"
  | .nullInPath => "Error: the path of a file holds a null character"
  | .numeralTooLong => "Error: a number has too many digits"
  | .noPattern => "Error: the pattern is left out"

end Executable

end GrammarTree

open GrammarTree in
/-- Runs the program on the command line. -/
def main (args : List String) : IO UInt32 := do
  let words := args.map String.toList
  let files ← Executable.readFiles words
  let input ← if Executable.readsInput words then (← IO.getStdin).readToEnd else pure ""
  let read (path : Text) := (files.lookup path).getD (.error (.cannotOpen .missing))
  match Program.run read input.toList words with
  | .usage exit =>
    if exit = 0 then IO.print Executable.usage else IO.eprint Executable.usage
    return exit.toUInt32
  | .finished exit output errors =>
    IO.eprint (String.ofList errors)
    IO.print (String.ofList output)
    return exit.toUInt32
  | .brokeOff reason =>
    IO.eprintln (Executable.reasonText reason)
    return 1
