import GrammarTree.Grammar.Pieces
import GrammarTree.Proofs.Text.Blank
import Mathlib.Data.List.Infix

/-!
# Written right-hand sides

The alternatives of a rule are written with pipes between them and with a backslash in front of
every pipe of their own. This file proves that the cutting of a right-hand side undoes that,
whatever pipes and backslashes the alternatives hold.

An alternative that was read has no blanks at its ends, and it is written between blanks. So the
pipes that are written between alternatives stand apart from all other characters and split, and the
pipes of the alternatives have their backslashes and do not. An alternative that ends in a backslash
makes no difference, since there is a blank between it and the next pipe.

What is here:

* `Text.IsTrimmed`, which is true of every alternative that was read, and `Text.IsTrimmed.trim_pad`;
* what escaping and its undoing keep: the ends of a text, and where other texts occur in it;
* `Pieces.written`, the pieces of a written side, and `Pieces.cutAfter_written`: they are the pieces
  that it is cut into;
* `alternativesOf_written`: cutting undoes writing.
-/

set_option autoImplicit false

namespace GrammarTree

/-! ## Trimmed texts -/

namespace Text

/-- A text with no blank at its ends. -/
structure IsTrimmed (t : Text) : Prop where
  /-- It does not start with a blank. -/
  head : ∀ c ∈ t.head?, isBlank c = false
  /-- It does not end with a blank. -/
  last : ∀ c ∈ t.getLast?, isBlank c = false

theorem head?_dropWhile_isBlank {t : Text} :
    ∀ c ∈ (t.dropWhile isBlank).head?, isBlank c = false := by
  intro c hc
  have hnot := List.head?_dropWhile_not isBlank t
  rw [Option.mem_def.1 hc] at hnot
  simpa using hnot

theorem trimRight_isPrefix (t : Text) : t.trimRight <+: t := by
  have hsuffix := List.dropWhile_suffix isBlank (l := t.reverse)
  rwa [← List.reverse_prefix, List.reverse_reverse] at hsuffix

theorem trim_isInfix (t : Text) : t.trim <:+: t :=
  (trimRight_isPrefix _).isInfix.trans (List.dropWhile_suffix isBlank).isInfix

theorem isTrimmed_trim (t : Text) : t.trim.IsTrimmed := by
  refine ⟨fun c hc => ?_, fun c hc => ?_⟩
  · obtain ⟨rest, hrest⟩ := trimRight_isPrefix t.trimLeft
    refine head?_dropWhile_isBlank (t := t) c ?_
    rw [← trimLeft, ← hrest, List.head?_append]
    rw [trim] at hc
    rw [Option.mem_def.1 hc]
    rfl
  · rw [trim, trimRight, List.getLast?_reverse] at hc
    exact head?_dropWhile_isBlank c hc

/-- Trimming takes the blanks around a trimmed text away and no more. -/
theorem IsTrimmed.trim_pad {t left right : Text} (h : t.IsTrimmed) (hleft : left.isBlankOnly = true)
    (hright : right.isBlankOnly = true) : (left ++ t ++ right).trim = t := by
  have hdrop : ∀ {pad rest : Text}, pad.isBlankOnly = true →
      (∀ c ∈ rest.head?, isBlank c = false) → (pad ++ rest).dropWhile isBlank = rest :=
    fun hpad hrest => dropWhile_append (isBlankOnly_iff.1 hpad) hrest
  by_cases ht : t = []
  · subst ht
    have hblank : (left ++ [] ++ right).isBlankOnly = true := by
      simp only [isBlankOnly, List.append_nil, List.all_append, Bool.and_eq_true]
      exact ⟨hleft, hright⟩
    rw [trim, trimLeft_eq_nil_iff.2 hblank]
    rfl
  · have hhead : ∀ c ∈ (t ++ right).head?, isBlank c = false := by
      rw [List.head?_append_of_ne_nil _ ht]
      exact h.head
    have hlast : ∀ c ∈ t.reverse.head?, isBlank c = false := by
      rw [List.head?_reverse]
      exact h.last
    have hreverse : isBlankOnly right.reverse = true := by
      rw [isBlankOnly, List.all_reverse]
      exact hright
    rw [trim, trimLeft, List.append_assoc, hdrop hleft hhead, trimRight, List.reverse_append,
      hdrop hreverse hlast, List.reverse_reverse]

theorem trim_eq_self_iff {t : Text} : t.trim = t ↔ t.IsTrimmed := by
  constructor
  · intro h
    rw [← h]
    exact isTrimmed_trim t
  · intro h
    have hpad : trim ([] ++ t ++ []) = t := h.trim_pad rfl rfl
    rwa [List.nil_append, List.append_nil] at hpad

end Text

/-! ## Escapes -/

namespace Pieces

theorem getLast?_escape (t : Text) : (escape t).getLast? = t.getLast? := by
  induction t with
  | nil => rfl
  | cons c t ih =>
    rw [escape]
    split
    · rename_i hc
      rw [List.getLast?_cons_cons, List.getLast?_cons, ih, List.getLast?_cons, hc]
    · rw [List.getLast?_cons, ih, List.getLast?_cons]

theorem isTrimmed_escape {t : Text} (h : t.IsTrimmed) : (escape t).IsTrimmed := by
  refine ⟨fun c hc => ?_, ?_⟩
  · cases t with
    | nil => cases hc
    | cons d t =>
      rw [escape] at hc
      split at hc
      · cases hc
        rfl
      · cases hc
        exact h.head c rfl
  · rw [getLast?_escape]
    exact h.last

theorem getLast?_unescape (t : Text) : (unescape t).getLast? = t.getLast? := by
  fun_induction unescape t with
  | case1 => rfl
  | case2 t ih => rw [List.getLast?_cons_cons, List.getLast?_cons, ih, List.getLast?_cons]
  | case3 c t _ ih => rw [List.getLast?_cons, ih, List.getLast?_cons]

theorem isTrimmed_unescape {t : Text} (h : t.IsTrimmed) : (unescape t).IsTrimmed := by
  refine ⟨fun c hc => ?_, ?_⟩
  · revert hc h
    fun_cases unescape t with
    | case1 => simp
    | case2 t =>
      intro _ hc
      cases hc
      rfl
    | case3 d t =>
      intro h hc
      cases hc
      exact h.head c rfl
  · rw [getLast?_unescape]
    exact h.last

/-! A text without pipes and backslashes occurs in the escaped form of a text only where it occurs
in the text, and the same holds of the form without escapes. -/

theorem prefix_of_prefix_escape {p t : Text} (hpipe : '|' ∉ p) (hslash : '\\' ∉ p)
    (h : p <+: escape t) : p <+: t := by
  induction t generalizing p with
  | nil => exact h
  | cons c t ih =>
    cases p with
    | nil => exact List.nil_prefix
    | cons d p =>
      rw [List.mem_cons, not_or] at hpipe hslash
      rw [escape] at h
      split at h
      · exact absurd (List.cons_prefix_cons.1 h).1 (Ne.symm hslash.1)
      · obtain ⟨rfl, htail⟩ := List.cons_prefix_cons.1 h
        exact List.cons_prefix_cons.2 ⟨rfl, ih hpipe.2 hslash.2 htail⟩

theorem infix_of_infix_escape {p t : Text} (hpipe : '|' ∉ p) (hslash : '\\' ∉ p)
    (h : p <:+: escape t) : p <:+: t := by
  induction t with
  | nil => exact h
  | cons c t ih =>
    have hstart : p <+: escape (c :: t) → p <:+: c :: t := fun hprefix =>
      (prefix_of_prefix_escape hpipe hslash hprefix).isInfix
    rw [escape] at h hstart
    split at h
    · rename_i hc
      rw [if_pos hc] at hstart
      rcases List.infix_cons_iff.1 h with h | h
      · exact hstart h
      · rcases List.infix_cons_iff.1 h with h | h
        · cases p with
          | nil => exact List.nil_infix
          | cons d p =>
            rw [List.mem_cons, not_or] at hpipe
            exact absurd (List.cons_prefix_cons.1 h).1 (Ne.symm hpipe.1)
        · exact List.infix_cons (ih h)
    · rename_i hc
      rw [if_neg hc] at hstart
      rcases List.infix_cons_iff.1 h with h | h
      · exact hstart h
      · exact List.infix_cons (ih h)

theorem prefix_of_prefix_unescape {p t : Text} (hpipe : '|' ∉ p) (h : p <+: unescape t) :
    p <+: t := by
  induction p generalizing t with
  | nil => exact List.nil_prefix
  | cons d p ih =>
    rw [List.mem_cons, not_or] at hpipe
    revert h
    fun_cases unescape t with
    | case1 => exact id
    | case2 t => exact fun h => absurd (List.cons_prefix_cons.1 h).1 (Ne.symm hpipe.1)
    | case3 c t =>
      intro h
      obtain ⟨rfl, htail⟩ := List.cons_prefix_cons.1 h
      exact List.cons_prefix_cons.2 ⟨rfl, ih hpipe.2 htail⟩

theorem infix_of_infix_unescape {p t : Text} (hpipe : '|' ∉ p) (h : p <:+: unescape t) :
    p <:+: t := by
  fun_induction unescape t with
  | case1 => exact h
  | case2 t ih =>
    rcases List.infix_cons_iff.1 h with h | h
    · cases p with
      | nil => exact List.nil_infix
      | cons d p =>
        rw [List.mem_cons, not_or] at hpipe
        exact absurd (List.cons_prefix_cons.1 h).1 (Ne.symm hpipe.1)
    · exact List.infix_cons (List.infix_cons (ih h))
  | case3 c t hc ih =>
    rcases List.infix_cons_iff.1 h with h | h
    · have hstart : p <+: unescape (c :: t) := by rwa [unescape.eq_3 _ _ hc]
      exact (prefix_of_prefix_unescape hpipe hstart).isInfix
    · exact List.infix_cons (ih h)

/-! ## The pieces of a written side

The cutting looks at the character in front of it, and so does every lemma here. Behind a written
pipe comes a blank, after which it makes no difference what stood in front. -/

/-- The pieces of a written right-hand side: all of them start with a blank, and all but the last
one end with a blank. -/
def written : List Text → List Text
  | [] => []
  | [a] => [' ' :: escape a]
  | a :: as => (' ' :: escape a ++ [' ']) :: written as

/-- No pipe of an escaped text splits. -/
theorem cutAfter_escape_append (before : Option Char) (a rest : Text)
    (hrest : ∀ b b', cutAfter b rest = cutAfter b' rest) :
    cutAfter before (escape a ++ rest) = (cutAfter none rest).modifyHead (escape a ++ ·) := by
  induction a generalizing before with
  | nil =>
    rw [escape, List.nil_append, hrest before none]
    cases cutAfter none rest <;> rfl
  | cons c a ih =>
    rw [escape]
    split
    · rw [List.cons_append, cutAfter, if_neg (by simp), List.cons_append, cutAfter,
        if_neg (by simp [splits]), ih, List.modifyHead_modifyHead, List.modifyHead_modifyHead]
      rfl
    · rename_i hc
      rw [List.cons_append, cutAfter, if_neg (by simp [hc]), ih, List.modifyHead_modifyHead]
      rfl

theorem cutAfter_blank (before : Option Char) (t : Text) :
    cutAfter before (' ' :: t) = (cutAfter (some ' ') t).modifyHead (' ' :: ·) := by
  rw [cutAfter, if_neg (by simp)]

theorem cutAfter_written (before : Option Char) (a : Text) (as : List Text) :
    cutAfter before (' ' :: List.intercalate [' ', '|', ' '] ((a :: as).map escape)) =
      written (a :: as) := by
  induction as generalizing before a with
  | nil =>
    have hcut := cutAfter_escape_append (some ' ') a [] (fun _ _ => rfl)
    rw [List.append_nil] at hcut
    rw [cutAfter_blank, List.map_singleton, List.intercalate_singleton, hcut]
    simp [cutAfter, written]
  | cons a' as ih =>
    have hrest := ih (some '|') a'
    rw [cutAfter_blank, List.map_cons, List.map_cons, List.intercalate_cons_cons, ← List.map_cons]
    generalize List.intercalate [' ', '|', ' '] ((a' :: as).map escape) = rest at hrest ⊢
    -- The pipe stands between two blanks, so that it splits.
    have hpipe : ∀ b, cutAfter b (' ' :: '|' :: ' ' :: rest) = [' '] :: written (a' :: as) := by
      intro b
      rw [cutAfter_blank, cutAfter, if_pos (by simp [splits]), hrest]
      rfl
    rw [List.append_assoc, List.cons_append, List.cons_append, List.cons_append, List.nil_append,
      cutAfter_escape_append _ _ _ (fun b b' => (hpipe b).trans (hpipe b').symm), hpipe]
    rfl

theorem ne_nil_of_mem_written {as : List Text} {piece : Text} (h : piece ∈ written as) :
    piece ≠ [] := by
  fun_induction written as with
  | case1 => cases h
  | case2 a =>
    rw [List.mem_singleton.1 h]
    exact List.cons_ne_nil _ _
  | case3 a as _ ih =>
    rcases List.mem_cons.1 h with rfl | h
    · exact List.cons_ne_nil _ _
    · exact ih h

theorem dropEmptyTail_eq_self {pieces : List Text} (h : ∀ piece ∈ pieces, piece ≠ []) :
    dropEmptyTail pieces = pieces := by
  fun_induction dropEmptyTail pieces with
  | case1 => rfl
  | case2 => rfl
  | case3 piece next pieces hkept ih =>
    rw [ih fun p hp => h p (List.mem_cons_of_mem _ hp)] at hkept
    cases hkept
    exact absurd rfl (h [] (by simp))
  | case4 piece next pieces _ ih =>
    rw [ih fun p hp => h p (List.mem_cons_of_mem _ hp)]

theorem map_trim_written {as : List Text} (h : ∀ a ∈ as, a.IsTrimmed) :
    (written as).map (fun piece => unescape piece.trim) = as := by
  have htrim : ∀ (a right : Text), a.IsTrimmed → right.isBlankOnly = true →
      unescape (Text.trim (' ' :: escape a ++ right)) = a := by
    intro a right ha hright
    have hpad : Text.trim ([' '] ++ escape a ++ right) = escape a :=
      (isTrimmed_escape ha).trim_pad (by decide) hright
    rw [List.singleton_append] at hpad
    rw [hpad, unescape_escape]
  fun_induction written as with
  | case1 => rfl
  | case2 a =>
    have ha := htrim a [] (h a (List.mem_cons_self ..)) rfl
    rw [List.append_nil] at ha
    rw [List.map_singleton, ha]
  | case3 a as _ ih =>
    rw [List.map_cons, htrim a [' '] (h a (List.mem_cons_self ..)) (by decide),
      ih fun a' ha' => h a' (List.mem_cons_of_mem _ ha')]

/-! ## The pieces of any side -/

theorem infix_intercalate (gap : Text) {ts : List Text} {t : Text} (h : t ∈ ts) :
    t <:+: List.intercalate gap ts := by
  induction ts with
  | nil => cases h
  | cons t' ts ih =>
    cases ts with
    | nil =>
      rw [List.intercalate_singleton, List.mem_singleton.1 h]
    | cons t'' ts =>
      rw [List.intercalate_cons_cons]
      rcases List.mem_cons.1 h with rfl | h
      · rw [List.append_assoc]
        exact List.infix_append_left
      · exact List.infix_append_of_infix_right (ih h)

theorem mem_dropEmptyTail {pieces : List Text} {piece : Text} (h : piece ∈ dropEmptyTail pieces) :
    piece ∈ pieces := by
  fun_induction dropEmptyTail pieces with
  | case1 => exact h
  | case2 => exact h
  | case3 first next pieces hkept ih =>
    rw [List.mem_singleton.1 h]
    exact List.mem_cons_self ..
  | case4 first next pieces _ ih =>
    rcases List.mem_cons.1 h with rfl | h
    · exact List.mem_cons_self ..
    · exact List.mem_cons_of_mem _ (ih h)

end Pieces

/-- **Cutting undoes writing.** -/
theorem alternativesOf_written (a : Text) (as : List Text) (h : ∀ x ∈ a :: as, x.IsTrimmed) :
    alternativesOf (' ' :: List.intercalate [' ', '|', ' '] ((a :: as).map Pieces.escape)) =
      a :: as := by
  rw [alternativesOf, Pieces.cut, Pieces.cutAfter_written,
    Pieces.dropEmptyTail_eq_self fun _ => Pieces.ne_nil_of_mem_written, Pieces.map_trim_written h]

end GrammarTree
