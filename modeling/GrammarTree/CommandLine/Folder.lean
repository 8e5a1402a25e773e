import GrammarTree.Text.Blank
import GrammarTree.Text.Quoted

/-!
# Folders

The files that the program may read, by their names.

A path is followed part by part from a folder in memory, as a file system does it. The place where
one stands is the list of the names on the way to it. Going up from the folder itself leads outside,
where nothing is known and nothing is found; a path that starts with a slash starts there. Each way
to fail has the number and the wording that the user reads.

What is here:

* `FilePath.parts` and `FilePath.normal`, a path without empty and idle parts;
* `ReadFault`, why a file cannot be read;
* `decodeFile`, the text in the bytes of a file;
* `Folder.follow`, where a path leads in a folder in memory;
* `Folder.read`, the reading of a file from such a folder.
-/

set_option autoImplicit false

namespace GrammarTree

/-! ## Paths -/

namespace FilePath

/-- The part of a path that leads to the folder above. -/
def up : Text := ['.', '.']

/-- The parts of a path between slashes, without those that lead nowhere. -/
def parts (path : Text) : List Text :=
  (path.splitOn '/').filter fun part => part ≠ [] && part ≠ ['.']

/-- The slashes that make a path absolute: exactly two are kept, and more count as one. -/
def root (path : Text) : Text :=
  match (path.takeWhile (· = '/')).length with
  | 0 => []
  | 2 => ['/', '/']
  | _ => ['/']

/-- A path in its shortest form; the empty path is the folder itself. -/
def normal (path : Text) : Text :=
  match root path ++ List.intercalate ['/'] (parts path) with
  | [] => ['.']
  | text => text

end FilePath

/-! ## Faults

Only a file that cannot be opened is reported to the user as an error of the job. The other two
faults break the program off. -/

/-- Why a file cannot be opened. -/
inductive OpenFault where
  /-- There is no such file. -/
  | missing
  /-- A part of the path that should be a folder is a file. -/
  | notFolder
  /-- The path leads to a folder. -/
  | isFolder
  /-- The path, or a part of it that is looked up, is too long. -/
  | nameTooLong
  deriving DecidableEq, Repr

/-- The number and the wording of a fault. -/
def OpenFault.text : OpenFault → Text
  | .missing => "[Errno 2] No such file or directory".toList
  | .notFolder => "[Errno 20] Not a directory".toList
  | .isFolder => "[Errno 21] Is a directory".toList
  | .nameTooLong => "[Errno 36] File name too long".toList

/-- Why a file cannot be read. -/
inductive ReadFault where
  /-- It cannot be opened. -/
  | cannotOpen (fault : OpenFault)
  /-- Its path holds a null character. -/
  | nullInPath
  /-- Its bytes are not UTF-8. -/
  | notUtf8
  deriving DecidableEq, Repr

/-- The message for a file that cannot be opened. -/
def OpenFault.message (fault : OpenFault) (path : Text) : Text :=
  fault.text ++ ':' :: ' ' :: (FilePath.normal path).quoted

/-! ## Files -/

/-- The text that the bytes of a file write in UTF-8, with line feeds for all line ends. -/
def decodeFile (bytes : ByteArray) : Except ReadFault Text :=
  match String.fromUTF8? bytes with
  | some s => .ok (Text.unifyBreaks s.toList)
  | none => .error .notUtf8

/-- The bytes of some files, by their names. -/
abbrev Folder := List (Text × ByteArray)

/-- What stands at the end of a path. -/
inductive Entry where
  /-- A file with its bytes. -/
  | file (bytes : ByteArray)
  /-- A folder. -/
  | folder

namespace Folder

/-- The most bytes that a part of a path may have. -/
def maxPartBytes : Nat := 255

/-- The most bytes that a path may have in its shortest form. -/
def maxPathBytes : Nat := 4095

/-- Whether a text has more bytes than it may have. -/
def isLonger (most : Nat) (t : Text) : Bool := most < (String.ofList t).utf8ByteSize

/-- What stands at a place below the folder, which is given by the names on the way to it. -/
def entry? (files : Folder) (place : List Text) : Option Entry :=
  match files.find? fun file => FilePath.parts file.1 = place with
  | some file => some (.file file.2)
  | none =>
    if files.any fun file => place.isPrefixOf (FilePath.parts file.1) then some .folder else none

/-- The place above a place. There is always one, and above the folder itself it is outside. -/
def above : Option (List Text) → Option (List Text)
  | some (name :: names) => some (name :: names).dropLast
  | _ => none

/-- Where the parts of a path lead from an entry at a place. All that is known of the outside, which
has no place, is that one can go up there. -/
def follow (files : Folder) :
    Option (List Text) → Entry → List Text → Except OpenFault Entry
  | _, entry, [] => .ok entry
  | _, .file _, _ :: _ => .error .notFolder
  | place, .folder, part :: parts =>
    if part = FilePath.up then follow files (above place) .folder parts
    else if isLonger maxPartBytes part then .error .nameTooLong
    else
      match place.map (· ++ [part]) with
      | none => .error .missing
      | some place =>
        match files.entry? place with
        | some entry => follow files (some place) entry parts
        | none => .error .missing

/-- The bytes of a file. -/
def open? (files : Folder) (path : Text) : Except OpenFault ByteArray :=
  if isLonger maxPathBytes (FilePath.normal path) then .error .nameTooLong
  else
    let start := if FilePath.root path = [] then some [] else none
    match files.follow start .folder (FilePath.parts path) with
    | .ok (.file bytes) => .ok bytes
    | .ok .folder => .error .isFolder
    | .error fault => .error fault

/-- The text of a file. -/
def read (files : Folder) (path : Text) : Except ReadFault Text :=
  if path.contains '\x00' then .error .nullInPath
  else
    match files.open? path with
    | .ok bytes => decodeFile bytes
    | .error fault => .error (.cannotOpen fault)

end Folder

end GrammarTree
