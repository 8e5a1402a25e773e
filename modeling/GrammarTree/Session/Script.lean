import GrammarTree.Session.Note

/-!
# Scripts

A script is a text with one command on each line. Blank lines and lines that start with `#` are left
out. A line that fails has no effect and does not end the script, except that a numeral with too
many digits does.

What a script shows is kept as a list of events in their order, so that drawings and failures can be
told apart afterwards. The drawings go to the output of the program, and the failures and the notes
go to its errors.

The lines are numbered before any are left out, so that a failure is reported with the number of its
line in the whole script.

What is here:

* `ScriptEvent`, what a script shows on its way;
* `Transcript` and `Session.play`, the run of the lines of a script;
* `Session.playScript`, the run of a script, whose lines are numbered from 1.
-/

set_option autoImplicit false

namespace GrammarTree

/-- Something that a script shows on its way. -/
inductive ScriptEvent where
  /-- A note. -/
  | note (n : Note)
  /-- The drawing that a command asked for. -/
  | output (drawing : Text)
  /-- The failure of a numbered line. -/
  | failure (line : Nat) (e : Error)
  deriving DecidableEq, Repr

namespace ScriptEvent

/-- The drawing that an event shows. -/
def output? : ScriptEvent → Option Text
  | .output drawing => some drawing
  | _ => none

/-- Whether an event is a failure. -/
def isFailure : ScriptEvent → Bool
  | .failure _ _ => true
  | _ => false

end ScriptEvent

/-- The run of a script. -/
structure Transcript where
  /-- What was shown, in order. -/
  events : List ScriptEvent
  /-- The session after the last line that was run. -/
  final : Session
  /-- Whether the script ran to its end. -/
  completed : Bool
  deriving DecidableEq, Repr

namespace Transcript

/-- A transcript with earlier events in front. -/
def after (events : List ScriptEvent) (t : Transcript) : Transcript :=
  { t with events := events ++ t.events }

/-- Whether a line failed. -/
def hasFailure (t : Transcript) : Bool := t.events.any ScriptEvent.isFailure

/-- All drawings that were asked for, one after the other. -/
def output (t : Transcript) : Text := (t.events.filterMap ScriptEvent.output?).flatten

end Transcript

/-- Whether a line of a script holds no command. -/
def isIdleLine (line : Text) : Bool := line.isBlankOnly || line.trimLeft.head? = some '#'

namespace Session

/-- Runs numbered command lines one after the other. -/
def play (s : Session) : List (Text × Nat) → Transcript
  | [] => ⟨[], s, true⟩
  | (line, number) :: rest =>
    if isIdleLine line then play s rest
    else
      let notes := (s.runNotes line).map ScriptEvent.note
      match run line s with
      | .ok output s' => (play s' rest).after (notes ++ output.toList.map ScriptEvent.output)
      | .error .numeralTooLong s' => ⟨notes, s', false⟩
      | .error e s' => (play s' rest).after (notes ++ [.failure number e])

/-- Runs a script. -/
def playScript (s : Session) (script : Text) : Transcript := s.play (script.lines.zipIdx 1)

end Session

end GrammarTree
