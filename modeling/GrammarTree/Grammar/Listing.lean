import GrammarTree.Grammar.Index
import GrammarTree.Text.Quoted

/-!
# Listings

The ways to show a grammar: its numbered rules, its rules as JSON, its text with the rule numbers in
the left margin, and its reverse index. Every listing ends with a line feed unless it is empty.

A listing shows what was read and not what was written: its numbers count valid rules only, and the
rules are written back from their parts. The listing with the margin is the one exception, since it
prints the text itself.

What is here:

* `Grammar.numberedListing`, each rule with its number and its line;
* `Grammar.marginListing`, the text beside the margin with the numbers;
* `Grammar.jsonListing`, the rules as JSON;
* `Index.listing`, the values with the rules that produce them.
-/

set_option autoImplicit false

namespace GrammarTree

namespace Grammar

/-! ## Numbered rules -/

/-- The line of a numbered rule. -/
def numberedLine (number : Nat) (r : Rule) : Text :=
  Text.alignRight 3 (Text.ofNat number) ++ "  line ".toList ++
    Text.alignLeft 4 ((r.line.map Text.ofInt).getD []) ++ ' ' :: r.toText

/-- The rules with their numbers and the lines where they start. -/
def numberedListing (rules : List Rule) : Text :=
  Text.ofLines ((rules.zipIdx 1).map fun item => numberedLine item.2 item.1)

/-! ## Margins

The margin is cut into rows, at line feeds only, and the text beside it into lines, at every kind of
line break. The two agree on a text without other breaks than line feeds, and
`Proofs.Grammar.Margin` says when they do not. -/

/-- A grammar text with the numbers of its rules in a left margin. -/
def marginListing (t : Text) : Text :=
  let numbers := (margin (startLines (rules t))).rows
  Text.ofLines (t.lines.zipIdx.map fun item =>
    Text.alignRight 3 (numbers[item.2]?.getD []) ++ " | ".toList ++ item.1)

/-! ## JSON -/

/-- The items of a JSON list or object, one on each line, between two brackets; `indent` is the
indentation of the closing bracket. -/
def jsonItems (opening closing : Char) (indent : Nat) (items : List Text) : Text :=
  let newline := '\n' :: List.replicate indent ' '
  opening :: List.intercalate [','] (items.map fun item => newline ++ ' ' :: ' ' :: item) ++
    newline ++ [closing]

/-- A rule as a JSON object. -/
def jsonRule (r : Rule) : Text :=
  jsonItems '\x7b' '\x7d' 2 [
    "\"line\": ".toList ++ (r.line.map Text.ofInt).getD "null".toList,
    "\"name\": ".toList ++ r.name.jsonString,
    "\"alternatives\": ".toList ++ jsonItems '[' ']' 4 (r.alternatives.map Text.jsonString)]

/-- The rules as a JSON list. -/
def jsonListing (rules : List Rule) : Text :=
  if rules = [] then "[]\n".toList else jsonItems '[' ']' 0 (rules.map jsonRule) ++ ['\n']

end Grammar

/-! ## The reverse index -/

/-- The values of an index with the rules that have an alternative of this value. -/
def Index.listing (i : Index) : Text :=
  Text.ofLines (i.entries.map fun e =>
    e.value ++ "  <-  ".toList ++ Text.commaSeparated e.producers.toList)

end GrammarTree
