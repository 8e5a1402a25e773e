import GrammarTree.Text.Basic

/-!
# Blanks and lines

Blanks are the white space characters: the separators of categories Zs, Zl and Zp, and the ASCII and
Latin-1 controls that separate lines, fields or records. Some of them end a line as well.

There are two ways to cut a text into lines. Its *rows* are the pieces between line feeds, of which
there is always one. Its *lines* end at every kind of line break, and there is none where there is
no text. A grammar is read by its rows and a script by its lines.

What is here:

* `isBlank`, the class of blanks, and `isLineBreak`, that of the characters that end a line;
* `Text.trim`, which removes the blanks at both ends;
* `Text.squeeze`, which removes them all;
* `Text.rows` and `Text.lines`, the two ways to cut a text, `Text.ofLines`, which writes lines one
  below the other, and `Text.unifyBreaks`, what a text file looks like when it was read.
-/

set_option autoImplicit false

namespace GrammarTree

/-- White space: it separates words and is removed at the ends of a text. -/
def isBlank (c : Char) : Bool :=
  let n := c.toNat
  (0x09 ≤ n && n ≤ 0x0D) || (0x1C ≤ n && n ≤ 0x20) || n == 0x85 || n == 0xA0 || n == 0x1680 ||
    (0x2000 ≤ n && n ≤ 0x200A) || n == 0x2028 || n == 0x2029 || n == 0x202F || n == 0x205F ||
    n == 0x3000

/-- The characters that end a line. A carriage return and a line feed after it are one break. -/
def isLineBreak (c : Char) : Bool :=
  let n := c.toNat
  (0x0A ≤ n && n ≤ 0x0D) || (0x1C ≤ n && n ≤ 0x1E) || n == 0x85 || n == 0x2028 || n == 0x2029

namespace Text

/-! ## Trimming -/

/-- A text with nothing but blanks, or with nothing at all. -/
def isBlankOnly (t : Text) : Bool := t.all isBlank

/-- A text without its leading blanks. -/
def trimLeft (t : Text) : Text := t.dropWhile isBlank

/-- A text without its trailing blanks. -/
def trimRight (t : Text) : Text := (t.reverse.dropWhile isBlank).reverse

/-- A text without the blanks at its ends. -/
def trim (t : Text) : Text := (t.trimLeft).trimRight

theorem isBlankOnly_iff {t : Text} : t.isBlankOnly = true ↔ ∀ c ∈ t, isBlank c = true :=
  List.all_eq_true

theorem trimLeft_eq_nil_iff {t : Text} : t.trimLeft = [] ↔ t.isBlankOnly = true := by
  induction t with
  | nil => simp [trimLeft, isBlankOnly]
  | cons c t ih =>
    cases hc : isBlank c with
    | false => simp [trimLeft, isBlankOnly, hc]
    | true =>
      have htail : trimLeft (c :: t) = trimLeft t := by simp [trimLeft, hc]
      rw [htail, ih]
      simp [isBlankOnly, hc]

/-! ## Blank-free form -/

/-- A text without any blanks. -/
def squeeze (t : Text) : Text := t.filter fun c => !isBlank c

/-! ## Lines

A carriage return with a line feed behind it is one break. Both functions that know this pair match
on it before they look at a single character. -/

/-- The pieces between line feeds. -/
def rows (t : Text) : List Text := t.splitOn '\n'

/-- Lines, each with a line feed at its end. -/
def ofLines (ls : List Text) : Text := ls.flatMap fun l => l ++ ['\n']

/-- Carriage returns, with or without a line feed after them, become line feeds. -/
def unifyBreaks : Text → Text
  | [] => []
  | '\r' :: '\n' :: t => '\n' :: unifyBreaks t
  | '\r' :: t => '\n' :: unifyBreaks t
  | c :: t => c :: unifyBreaks t

/-- The lines of a text: every line break ends one, and a rest without a break is one more unless
it is empty. -/
def lines : Text → List Text
  | [] => []
  | '\r' :: '\n' :: t => [] :: lines t
  | c :: t =>
    if isLineBreak c then [] :: lines t
    else match lines t with
      | [] => [[c]]
      | l :: ls => (c :: l) :: ls

end Text

end GrammarTree
