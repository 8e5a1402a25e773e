import GrammarTree.Text.Blank

/-!
# The pieces of a right-hand side

A right-hand side is cut into pieces at its *splitting* pipes: a pipe next to another pipe does not
split, and a pipe directly after a backslash is an escaped, literal pipe. Whether a pipe splits is a
matter of the two characters beside it, in the text as it is written. In particular a backslash in
front of the backslash makes no difference.

Where a side is cut is decided before anything is trimmed or unescaped, so that neither of these can
make a pipe split, or keep it from splitting.

What is here:

* `Pieces.cut`, the pieces, of which there is always at least one; `Pieces.intercalate_cut` says
  that joining them with pipes gives the text back;
* `Pieces.dropEmptyTail`, which drops the empty piece after a final pipe;
* `Pieces.escape` and `Pieces.unescape`, with `Pieces.unescape_escape`;
* `alternativesOf`, all of it together.
-/

set_option autoImplicit false

namespace GrammarTree

namespace Pieces

/-! ## Cutting

The recursion is on the rest of the text, with the character in front of it as an argument. That
character is all that is needed of what was passed. -/

/-- Whether a pipe splits, given the characters on its two sides. -/
def splits (before after : Option Char) : Bool :=
  before != some '|' && before != some '\\' && after != some '|'

/-- The pieces between splitting pipes, where `before` is the character before the text. -/
def cutAfter (before : Option Char) : Text → List Text
  | [] => [[]]
  | c :: t =>
    if c = '|' && splits before t.head? then [] :: cutAfter (some c) t
    else (cutAfter (some c) t).modifyHead (c :: ·)

/-- The pieces between the splitting pipes of a text. -/
def cut (t : Text) : List Text := cutAfter none t

theorem cutAfter_ne_nil (before : Option Char) (t : Text) : cutAfter before t ≠ [] := by
  induction t generalizing before with
  | nil => simp [cutAfter]
  | cons c t ih =>
    rw [cutAfter]
    split
    · simp
    · rw [Ne, List.modifyHead_eq_nil_iff]
      exact ih (some c)

theorem intercalate_cutAfter (before : Option Char) (t : Text) :
    List.intercalate ['|'] (cutAfter before t) = t := by
  induction t generalizing before with
  | nil => simp [cutAfter]
  | cons c t ih =>
    have hrest := ih (some c)
    have hne := cutAfter_ne_nil (some c) t
    rw [cutAfter]
    cases hcut : cutAfter (some c) t with
    | nil => exact absurd hcut hne
    | cons piece pieces =>
      rw [hcut] at hrest
      split
      · rename_i hsplit
        simp only [Bool.and_eq_true, decide_eq_true_eq] at hsplit
        simpa [List.intercalate_cons_cons, hsplit.1] using hrest
      · cases pieces with
        | nil => simpa using hrest
        | cons next pieces =>
          simp only [List.intercalate_cons_cons, List.modifyHead_cons] at hrest ⊢
          simpa using hrest

theorem intercalate_cut (t : Text) : List.intercalate ['|'] (cut t) = t :=
  intercalate_cutAfter none t

/-! ## Empty pieces at the end -/

/-- Drops the empty pieces at the end, but never the first piece. -/
def dropEmptyTail : List Text → List Text
  | [] => []
  | [piece] => [piece]
  | piece :: next :: pieces =>
    match dropEmptyTail (next :: pieces) with
    | [[]] => [piece]
    | kept => piece :: kept

/-! ## Escapes

A pipe is escaped and a backslash is not. Taking the escapes out gives the text back all the same,
since in an escaped text no pipe stands without its own backslash. -/

/-- A text with a backslash in front of every pipe. -/
def escape : Text → Text
  | [] => []
  | c :: t => if c = '|' then '\\' :: '|' :: escape t else c :: escape t

/-- A text without the backslashes that stand directly in front of a pipe. -/
def unescape : Text → Text
  | [] => []
  | '\\' :: '|' :: t => '|' :: unescape t
  | c :: t => c :: unescape t

theorem head?_escape_ne (t : Text) : (escape t).head? ≠ some '|' := by
  cases t with
  | nil => simp [escape]
  | cons c t =>
    rw [escape]
    split
    · simp
    · simpa using ‹¬c = '|'›

theorem unescape_cons {c : Char} {t : Text} (h : t.head? ≠ some '|') :
    unescape (c :: t) = c :: unescape t := by
  rw [unescape]
  rintro t' rfl rfl
  exact h rfl

theorem unescape_escape (t : Text) : unescape (escape t) = t := by
  induction t with
  | nil => rfl
  | cons c t ih =>
    rw [escape]
    split
    · rename_i h
      rw [unescape, ih, h]
    · rw [unescape_cons (head?_escape_ne t), ih]

end Pieces

/-- The alternatives of a right-hand side: its pieces, trimmed and with literal pipes. -/
def alternativesOf (side : Text) : List Text :=
  (Pieces.dropEmptyTail (Pieces.cut side)).map fun piece => Pieces.unescape piece.trim

end GrammarTree
