import GrammarTree.Session.Basic

/-!
# Notes

While it works a session leaves notes about what it does, for the user who wants to see them. The
notes do not change the state: they are a function of the state and of the command.

Since the grammar is read again for each query, its malformed blocks are noted again for each query
too. So which notes a command leaves depends on how far it gets: a selection for a node that does
not exist fails before the grammar is read, and leaves no note about it.

The chain in a note is the one that the command finds: it is searched for again, by the same
function, in the session before the command.

What is here:

* `Note` with its level and its text;
* `Session.commandNotes`, the notes of a command, and `Session.runNotes`, those of a line.
-/

set_option autoImplicit false

namespace GrammarTree

/-- The importance of a note. -/
inductive NoteLevel where
  /-- For following each step. -/
  | debug
  /-- For following the results. -/
  | info
  /-- For something that the user may want to mend. -/
  | warning
  deriving DecidableEq, Repr

/-- The name of a level. -/
def NoteLevel.name : NoteLevel → Text
  | .debug => "DEBUG".toList
  | .info => "INFO".toList
  | .warning => "WARNING".toList

/-- A remark about one step. -/
inductive Note where
  /-- A block of the grammar is malformed and was left out. -/
  | skipped (block : Block)
  /-- A command is applied. -/
  | applying (command : Command)
  /-- A chain from a node was found. -/
  | chainFound (node : NodeId) (values : List Text)
  /-- A path was added. -/
  | resolved (values : List Text)
  deriving DecidableEq, Repr

namespace Note

/-- The importance of a note. -/
def level : Note → NoteLevel
  | .skipped _ => .warning
  | .applying _ => .debug
  | .chainFound _ _ => .debug
  | .resolved _ => .info

/-- The values of a chain with arrows between them. -/
def arrows (values : List Text) : Text := List.intercalate " <- ".toList values

/-- The wording of a note. -/
def text : Note → Text
  | .skipped block =>
    "Skipping malformed rule at line ".toList ++ Text.ofNat block.line ++ ':' :: ' ' ::
      block.text.quoted
  | .applying command => "Applying ".toList ++ command.record
  | .chainFound node values =>
    "Path from node ".toList ++ Text.ofInt node ++ ':' :: ' ' :: arrows values
  | .resolved values => "Resolved ".toList ++ arrows values

/-- The line that shows a note. -/
def line (n : Note) : Text := n.level.name ++ ':' :: ' ' :: n.text

end Note

/-- The notes of one reading of a grammar text. -/
def Grammar.notes (grammar : Text) : List Note :=
  (Grammar.malformedBlocks grammar).map Note.skipped

namespace Session

/-- The note of a chain that a search from a node finds. -/
def chainNotes (s : Session) (node : NodeId) (pattern : Text) : List Note :=
  match s.derivation.chainFrom (Index.ofRules s.rules) node pattern with
  | .ok chain => [.chainFound node chain.values]
  | .error _ => []

/-- The notes that a command leaves. -/
def commandNotes (s : Session) (command : Command) : List Note :=
  .applying command ::
    match command with
    | .newRoot _ => Grammar.notes s.grammar
    | .beginSelection node =>
      match (node.map Int.ofNat).or s.agenda.current? with
      | some id => if s.derivation.contains id then Grammar.notes s.grammar else []
      | none => []
    | .growPath pattern node =>
      match (node.map Int.ofNat).or s.agenda.current? with
      | some id => Grammar.notes s.grammar ++ s.chainNotes id pattern
      | none => []
    | _ => []

/-- The notes that a command line leaves; a line that is no command leaves none. -/
def runNotes (s : Session) (text : Text) : List Note :=
  match Command.read text s.isSelecting with
  | .ok command => s.commandNotes command
  | .error _ => []

end Session

end GrammarTree
