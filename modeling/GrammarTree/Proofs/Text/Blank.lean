import GrammarTree.Text.Blank
import Mathlib.Data.List.DropRight
import Mathlib.Data.List.TakeWhile

/-!
# Blanks and digits

A run of blanks or of digits is found by its boundary: the first character behind it belongs to
another class. This file has the lemmas for such runs, and proves that no character is a blank and a
digit at once.

The lemmas on runs are about any class of characters. A text may also end where the run ends, so the
boundary is stated for the head of the rest as an option: if there is a next character, it belongs
to another class.

What is here:

* `Text.takeWhile_append` and `Text.dropWhile_append`, a run in front of its boundary;
* `Text.trim_eq_nil_iff`: nothing is left of a text of blanks, and of no other;
* `isDigit_of_isBlank`: a blank is no digit.

The forms of commands are recognised by such runs, and their lemmas in `Proofs.Command.Forms` are
the reason for stating them in front of any rest.
-/

set_option autoImplicit false

namespace GrammarTree

/-! ## Runs -/

namespace Text

variable {p : Char → Bool} {run rest : Text}

/-- That a text has no character of a class is found by going through it. -/
theorem forall_eq_false_of_all {t : Text} (h : t.all (fun c => !p c) = true) :
    ∀ c ∈ t, p c = false := fun c hc => by simpa using List.all_eq_true.1 h c hc

theorem takeWhile_append (hrun : ∀ c ∈ run, p c = true) (hrest : ∀ c ∈ rest.head?, p c = false) :
    (run ++ rest).takeWhile p = run := by
  rw [List.takeWhile_append_of_pos hrun]
  cases rest with
  | nil => rw [List.takeWhile_nil, List.append_nil]
  | cons c rest => rw [List.takeWhile_cons_of_neg (by simp [hrest c rfl]), List.append_nil]

theorem dropWhile_append (hrun : ∀ c ∈ run, p c = true) (hrest : ∀ c ∈ rest.head?, p c = false) :
    (run ++ rest).dropWhile p = rest := by
  rw [List.dropWhile_append_of_pos hrun]
  cases rest with
  | nil => rfl
  | cons c rest => rw [List.dropWhile_cons_of_neg (by simp [hrest c rfl])]

theorem trimRight_eq_self {t : Text} (h : ∀ c ∈ t.getLast?, isBlank c = false) :
    t.trimRight = t := by
  have hdrop : (([] : Text) ++ t.reverse).dropWhile isBlank = t.reverse :=
    dropWhile_append (fun _ hc => absurd hc List.not_mem_nil) (by rwa [List.head?_reverse])
  rw [List.nil_append] at hdrop
  rw [trimRight, hdrop, List.reverse_reverse]

theorem trim_eq_nil_iff {t : Text} : t.trim = [] ↔ t.isBlankOnly = true := by
  have hright : t.trim = [] ↔ isBlankOnly t.trimLeft = true := by
    have hreverse := trimLeft_eq_nil_iff (t := t.trimLeft.reverse)
    rw [isBlankOnly, List.all_reverse] at hreverse
    rw [trim, trimRight, List.reverse_eq_nil_iff]
    exact hreverse
  rw [hright, ← trimLeft_eq_nil_iff, ← trimLeft_eq_nil_iff, trimLeft, trimLeft,
    List.dropWhile_idempotent]

end Text

/-! ## Blanks are no digits

The blanks are given by ranges and the digits by a table, and the two do not show by themselves that
they are apart. There are only a few blanks, so they are listed here and each is looked up in the
table. -/

/-- The code points of the blanks. -/
def blankCodes : List Nat :=
  [0x09, 0x0A, 0x0B, 0x0C, 0x0D, 0x1C, 0x1D, 0x1E, 0x1F, 0x20, 0x85, 0xA0, 0x1680, 0x2000, 0x2001,
    0x2002, 0x2003, 0x2004, 0x2005, 0x2006, 0x2007, 0x2008, 0x2009, 0x200A, 0x2028, 0x2029, 0x202F,
    0x205F, 0x3000]

theorem toNat_mem_blankCodes {c : Char} (h : isBlank c = true) : c.toNat ∈ blankCodes := by
  simp only [isBlank, Bool.or_eq_true, Bool.and_eq_true, decide_eq_true_eq, beq_iff_eq] at h
  simp only [blankCodes, List.mem_cons, List.not_mem_nil, or_false]
  omega

theorem isDigit_of_isBlank {c : Char} (h : isBlank c = true) : isDigit c = false := by
  have hzeros : ∀ n ∈ blankCodes, ∀ base ∈ digitZeros,
      ¬ (decide (base ≤ n) && decide (n < base + 10)) = true := by decide
  rw [isDigit, digitValue?, List.find?_eq_none.2 (hzeros _ (toNat_mem_blankCodes h))]
  rfl

end GrammarTree
