import GrammarTree.Grammar.Alternative
import GrammarTree.Grammar.Basic
import GrammarTree.Grammar.NameSet

/-!
# The reverse index

The reverse index answers, for a value, which rules can derive it in one step. It is built by
recording the alternatives of the rules one by one.

Two kinds of things are recorded. An alternative counts for its value, under which it is found
whatever its blanks are, and the first spelling of a value is kept for the expansion of a node. The
non-terminals in an alternative count by themselves, since a rule that uses a non-terminal can
derive it together with what stands around it.

The values keep the order in which they first occur, which is the order in which the index is shown
and in which a search reports what it found. The producers of a value are a set, shown in ascending
order.

What is here:

* `Index.Entry` and `Index.record`, which keep one entry for each value in order of first
  occurrence, with the spelling that occurred first;
* `Index.Use` and `Index.recordUse`, which keep the rules that use each non-terminal as a token, in
  ascending order of the non-terminals;
* `Index.ofRules`, the index of a list of rules;
* `Index.values`, `Index.producers` and `Index.spelling`, its answers.
-/

set_option autoImplicit false

namespace GrammarTree

namespace Index

/-- What is known about a value. -/
structure Entry where
  /-- The value. -/
  value : Text
  /-- The first alternative that was written for it. -/
  spelling : Text
  /-- The symbols of the rules with an alternative of this value. -/
  producers : NameSet
  deriving DecidableEq

/-- Which rules use a non-terminal. -/
structure Use where
  /-- The non-terminal. -/
  symbol : Text
  /-- The symbols of the rules with an alternative that has it as a token. -/
  users : NameSet
  deriving DecidableEq

end Index

/-- The look-ups for the search of a path, built from the rules of a grammar. -/
structure Index where
  /-- The rules, in document order. -/
  rules : List Rule
  /-- The values, in order of first occurrence. -/
  entries : List Index.Entry
  /-- The non-terminals that occur as tokens, in ascending order. -/
  uses : List Index.Use
  deriving DecidableEq

namespace Index

/-! ## Building

One entry holds both what is known of a value, its producers and its spelling.
`Proofs.Grammar.Values` shows that two tables that are filled one after the other have the same
answers. -/

/-- Records that the rule `owner` has an alternative. -/
def record (owner alternative : Text) : List Entry → List Entry
  | [] => [⟨Alternative.value alternative, alternative, NameSet.empty.insert owner⟩]
  | e :: entries =>
    if e.value = Alternative.value alternative then
      { e with producers := e.producers.insert owner } :: entries
    else e :: record owner alternative entries

/-- Records that the rule `owner` uses a non-terminal as a token. -/
def recordUse (owner symbol : Text) : List Use → List Use
  | [] => [⟨symbol, NameSet.empty.insert owner⟩]
  | u :: uses =>
    if u.symbol = symbol then { u with users := u.users.insert owner } :: uses
    else if Text.before symbol u.symbol then ⟨symbol, NameSet.empty.insert owner⟩ :: u :: uses
    else u :: recordUse owner symbol uses

/-- The non-terminals among the tokens of an alternative. -/
def nonterminals (alternative : Text) : List Text :=
  (Alternative.tokens alternative).filter isPlaceholder

/-- The alternatives of a list of rules, each with the symbol of its rule. -/
def owned (rules : List Rule) : List (Text × Text) :=
  rules.flatMap fun r => r.alternatives.map fun a => (r.symbol, a)

/-- The index of a list of rules. -/
def ofRules (rules : List Rule) : Index where
  rules := rules
  entries := (owned rules).foldl (fun entries o => record o.1 o.2 entries) []
  uses := (owned rules).foldl
    (fun uses o => (nonterminals o.2).foldl (fun uses symbol => recordUse o.1 symbol uses) uses) []

/-! ## Answers -/

/-- The values, in order of first occurrence. -/
def values (i : Index) : List Text := i.entries.map Entry.value

/-- The rules with an alternative of the given value. -/
def derivers (i : Index) (value : Text) : NameSet :=
  ((i.entries.find? fun e => e.value = value).map Entry.producers).getD NameSet.empty

/-- The rules that use the given non-terminal as a token. -/
def users (i : Index) (symbol : Text) : NameSet :=
  ((i.uses.find? fun u => u.symbol = symbol).map Use.users).getD NameSet.empty

/-- The rules that can derive a value in one step: those with an alternative of this value and, for
a non-terminal, those that have it among their tokens. -/
def producers (i : Index) (value : Text) : NameSet :=
  if isPlaceholder value then (i.users value).union (i.derivers value) else i.derivers value

/-- The alternative to expand for a value: the first that was written for it. -/
def spelling (i : Index) (value : Text) : Text :=
  ((i.entries.find? fun e => e.value = value).map Entry.spelling).getD value

/-- The merged rule of a symbol. -/
def merged? (i : Index) (symbol : Text) : Option Rule := Grammar.merged? i.rules symbol

/-- The symbols of the rules. -/
def owners (i : Index) : List Text := i.rules.map Rule.symbol

end Index

end GrammarTree
