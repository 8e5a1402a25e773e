import GrammarTree.Grammar.Alternative

/-!
# Search patterns

The way a pattern is quoted says how it matches a candidate:

* between apostrophes it matches the candidates in which it occurs;
* between double quotes it matches only the candidate equal to it;
* without quotes it matches the candidates that hold its characters in the same order, not
  necessarily next to each other.

A pattern that is compared with values is first brought into the form that values have, in which no
blanks are left. Its quotes are kept, so that it matches in the same way as before.

What is here:

* `Pattern`, its reading `Pattern.ofText` and its written form `Pattern.toText`;
* `Pattern.accepts` and `matchesPattern`, with `Pattern.accepts_part_iff`,
  `Pattern.accepts_exact_iff` and `Pattern.accepts_scattered_iff`;
* `searchKey`, the form of a pattern that is compared with values;
* `onlyMatch?`, the one element of a list that passes a test.
-/

set_option autoImplicit false

namespace GrammarTree

/-- A search pattern. -/
inductive Pattern where
  /-- Matches the candidates in which the text occurs. -/
  | part (t : Text)
  /-- Matches the text itself. -/
  | exact (t : Text)
  /-- Matches the candidates that hold the characters of the text in order. -/
  | scattered (t : Text)
  deriving DecidableEq, Repr

/-- The text between a quote at its start and another one at its end. -/
def Text.unquote? (quote : Char) : Text → Option Text
  | [] => none
  | c :: t => if c = quote && t.getLast? = some quote then some t.dropLast else none

namespace Pattern

/-- The pattern that a text writes. -/
def ofText (t : Text) : Pattern :=
  match t.unquote? '\'' with
  | some inner => .part inner
  | none =>
    match t.unquote? '"' with
    | some inner => .exact inner
    | none => .scattered t

/-- The written form of a pattern. -/
def toText : Pattern → Text
  | .part t => '\'' :: t ++ ['\'']
  | .exact t => '"' :: t ++ ['"']
  | .scattered t => t

/-- Whether a candidate matches a pattern. -/
def accepts (candidate : Text) : Pattern → Bool
  | .part t => t.occursIn candidate
  | .exact t => candidate == t
  | .scattered t => t.isSublist candidate

/-- The pattern without the blanks that values do not have. -/
def squeeze : Pattern → Pattern
  | .part t => .part (Alternative.value t)
  | .exact t => .exact (Alternative.value t)
  | .scattered t => .scattered t.squeeze

theorem accepts_part_iff {t candidate : Text} :
    (part t).accepts candidate = true ↔ t <:+: candidate :=
  Text.occursIn_iff

theorem accepts_exact_iff {t candidate : Text} :
    (exact t).accepts candidate = true ↔ candidate = t :=
  beq_iff_eq

theorem accepts_scattered_iff {t candidate : Text} :
    (scattered t).accepts candidate = true ↔ List.Sublist t candidate :=
  List.isSublist_iff_sublist

end Pattern

/-- Whether a candidate matches a written pattern. -/
def matchesPattern (pattern candidate : Text) : Bool := (Pattern.ofText pattern).accepts candidate

/-- The form in which a written pattern is compared with values: its quotes are kept and its text
loses its blanks in the way that alternatives lose theirs. -/
def searchKey (pattern : Text) : Text := (Pattern.ofText pattern).squeeze.toText

/-- The only element of a list that passes a test; none when no element or several pass. -/
def onlyMatch? {α : Type} (test : α → Bool) (xs : List α) : Option α :=
  match xs.filter test with
  | [x] => some x
  | _ => none

theorem onlyMatch?_eq_some_iff {α : Type} {test : α → Bool} {xs : List α} {x : α} :
    onlyMatch? test xs = some x ↔ xs.filter test = [x] := by
  unfold onlyMatch?
  split
  · rename_i h
    simp [h]
  · rename_i h
    simpa using fun hx => h x hx

end GrammarTree
