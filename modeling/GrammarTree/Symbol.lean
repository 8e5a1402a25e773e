import GrammarTree.Text.Basic

/-!
# Symbols

A label is either a terminal or a non-terminal. The non-terminals are the *placeholders*: labels of
the form `<name>` with a non-empty name. Whether a label is one is decided by its two ends alone,
and the name may itself hold angle brackets; it is the reading of an alternative that keeps brackets
out of the names of its non-terminals.

The name between the brackets is what is left when both ends are taken off. For a label that is no
placeholder this is some text without a meaning, and no function looks at it.

What is here:

* `Text.isBetween`, the test for a non-empty text between two delimiters;
* `symbolOf`, the non-terminal of a rule name, and `isPlaceholder`, related by `isPlaceholder_iff`.
-/

set_option autoImplicit false

namespace GrammarTree

/-- Whether a text starts with `opening`, ends with `closing` and has something between the two. -/
def Text.isBetween (t opening closing : Text) : Bool :=
  decide (opening.length + closing.length < t.length) && opening.isPrefixOf t &&
    closing.isSuffixOf t

/-- The non-terminal of a rule name: the name in angle brackets. -/
def symbolOf (name : Text) : Text := '<' :: name ++ ['>']

/-- Whether a label is a non-terminal placeholder. -/
def isPlaceholder (label : Text) : Bool := label.isBetween ['<'] ['>']

/-- The name inside a text in angle brackets: the text without its first and last character. -/
def bareName (label : Text) : Text := label.tail.dropLast

theorem bareName_symbolOf (name : Text) : bareName (symbolOf name) = name := by
  simp [bareName, symbolOf]

theorem eq_symbolOf_of_isPlaceholder {label : Text} (h : isPlaceholder label = true) :
    bareName label ≠ [] ∧ label = symbolOf (bareName label) := by
  simp only [isPlaceholder, Text.isBetween, Bool.and_eq_true, decide_eq_true_eq,
    List.isPrefixOf_iff_prefix, List.isSuffixOf_iff_suffix] at h
  obtain ⟨⟨hlength, rest, hrest⟩, front, hfront⟩ := h
  cases front with
  | nil =>
    subst hfront
    simp at hlength
  | cons c name =>
    subst hfront
    rw [List.singleton_append, List.cons_append, List.cons.injEq] at hrest
    obtain ⟨rfl, -⟩ := hrest
    have hname : name ≠ [] := by
      rintro rfl
      simp at hlength
    simpa [bareName, symbolOf] using hname

/-- The placeholders are the non-terminals of the names that are not empty. -/
theorem isPlaceholder_iff {label : Text} :
    isPlaceholder label = true ↔ ∃ name, name ≠ [] ∧ label = symbolOf name := by
  constructor
  · intro h
    exact ⟨bareName label, eq_symbolOf_of_isPlaceholder h⟩
  · rintro ⟨name, hname, rfl⟩
    have hlength := List.length_pos_iff.2 hname
    have hsuffix : ['>'].isSuffixOf (symbolOf name) = true :=
      List.isSuffixOf_iff_suffix.2 ⟨'<' :: name, rfl⟩
    simp only [isPlaceholder, Text.isBetween, hsuffix, Bool.and_true, Bool.and_eq_true,
      decide_eq_true_eq]
    refine ⟨?_, by simp [symbolOf]⟩
    simp only [symbolOf, List.length_cons, List.length_append, List.length_nil, List.cons_append]
    omega

end GrammarTree
