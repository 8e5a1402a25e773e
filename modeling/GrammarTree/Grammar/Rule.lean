import GrammarTree.Error
import GrammarTree.Grammar.Pieces

/-!
# Rules

A rule is written `<name> ::= alternative | alternative | ...` with a non-empty name and a non-empty
first alternative. The later alternatives may be empty.

That the name and the first alternative are not empty is part of the type of rules. `Rule.ofParts`
is the only check, and a rule that exists has passed it; a rule keeps this through every change of
its other fields, as when rules are merged.

A text that is not a rule has one fault, the first that is found. The order is fixed: the number of
separators, the left side, the first alternative.

What is here:

* `Rule`, whose name and first alternative are never empty;
* `Rule.ofParts`, a rule from its parts or the list of what is missing;
* `Rule.read`, the reading of one rule, with `Rule.read?` and `Rule.readStrict`;
* `Rule.toText`, its written form, with a backslash in front of every literal pipe.
-/

set_option autoImplicit false

namespace GrammarTree

/-- A production rule. -/
structure Rule where
  /-- The line of the grammar text where the rule starts; none for a merged rule. -/
  line : Option Int
  /-- The name of the rule without its brackets. -/
  name : Text
  /-- The first right-hand side option. -/
  first : Text
  /-- The other right-hand side options, in written order. -/
  others : List Text
  /-- A rule has a name. -/
  name_ne_nil : name ≠ []
  /-- A rule can produce something. -/
  first_ne_nil : first ≠ []
  deriving DecidableEq, Repr

/-- What the parts of a rule lack. -/
inductive MissingPart where
  /-- The name is empty. -/
  | name
  /-- There is no first alternative, or it is empty. -/
  | firstAlternative
  deriving DecidableEq, Repr

/-- The text between the name of a rule and its alternatives. -/
def separator : Text := [':', ':', '=']

/-- The parts of a text between separators, of which there is always at least one. -/
def separated : Text → List Text
  | [] => [[]]
  | ':' :: ':' :: '=' :: t => [] :: separated t
  | c :: t => (separated t).modifyHead (c :: ·)

/-- Whether a text holds a separator. -/
def hasSeparator (t : Text) : Bool := separator.occursIn t

namespace Rule

/-- The non-terminal that a rule defines. -/
def symbol (r : Rule) : Text := symbolOf r.name

/-- All right-hand side options, in written order. -/
def alternatives (r : Rule) : List Text := r.first :: r.others

/-- A rule made of its parts, or the parts that are missing, the name before the alternative. -/
def ofParts (line : Option Int) (name : Text) (alternatives : List Text) :
    Except (List MissingPart) Rule :=
  match name, alternatives with
  | c :: name, (d :: first) :: others =>
    .ok ⟨line, c :: name, d :: first, others, List.cons_ne_nil _ _, List.cons_ne_nil _ _⟩
  | [], (_ :: _) :: _ => .error [.name]
  | _ :: _, _ => .error [.firstAlternative]
  | [], _ => .error [.name, .firstAlternative]

/-- Reads one rule, or tells why the text is not a rule. -/
def read (text : Text) (line : Option Int) : Except RuleFault Rule :=
  match separated text with
  | [left, right] =>
    if left.trim.isBetween ['<'] ['>'] then
      match ofParts line (bareName left.trim) (alternativesOf right) with
      | .ok rule => .ok rule
      | .error _ => .error .emptyFirst
    else .error .leftSide
  | parts => .error (.separators (parts.length - 1))

/-- Reads one rule; none when the text is malformed. -/
def read? (text : Text) (line : Option Int) : Option Rule := (read text line).toOption

/-- Reads one rule, or fails with the error that names the text and its line. -/
def readStrict (text : Text) (line : Option Int) : Except Error Rule :=
  match read text line with
  | .ok rule => .ok rule
  | .error fault => .error (.malformedRule text fault.reason line)

/-- The written form of a rule. -/
def toText (r : Rule) : Text :=
  r.symbol ++ ' ' :: separator ++ ' ' ::
    List.intercalate [' ', '|', ' '] (r.alternatives.map Pieces.escape)

end Rule

end GrammarTree
