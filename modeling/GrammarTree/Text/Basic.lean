/-!
# Texts

A text is a list of code points: lengths, positions and order are all by code point. Everything the
program reads and shows is such a text, so that a statement about a text is a statement about a
list, and the lemmas on lists apply to it as they stand.

A digit is a decimal digit of any script. The digits of one script follow each other, so that a
table of the zeros is enough to tell the digits and their values.

What is here:

* decimal digits (`digitZeros`, `digitValue?`, `isDigit`) and numerals, which are read in the digits
  of any script (`Text.readNumeral`) and written in the ordinary ones (`Text.ofNat`, `Text.ofInt`);
* the code point order (`Text.before`), which is a strict total order;
* occurrence of one text inside another (`Text.occursIn`, `Text.occursIn_iff`);
* lists of texts, and the padding of table columns.
-/

set_option autoImplicit false

namespace GrammarTree

/-- A sequence of Unicode code points. -/
abbrev Text := List Char

/-! ## Decimal digits -/

/-- The code points of the decimal digits of value zero; nine more digits follow each. -/
def digitZeros : List Nat :=
  [0x30, 0x660, 0x6F0, 0x7C0, 0x966, 0x9E6, 0xA66, 0xAE6, 0xB66, 0xBE6, 0xC66, 0xCE6, 0xD66, 0xDE6,
    0xE50, 0xED0, 0xF20, 0x1040, 0x1090, 0x17E0, 0x1810, 0x1946, 0x19D0, 0x1A80, 0x1A90, 0x1B50,
    0x1BB0, 0x1C40, 0x1C50, 0xA620, 0xA8D0, 0xA900, 0xA9D0, 0xA9F0, 0xAA50, 0xABF0, 0xFF10,
    0x104A0, 0x10D30, 0x11066, 0x110F0, 0x11136, 0x111D0, 0x112F0, 0x11450, 0x114D0, 0x11650,
    0x116C0, 0x11730, 0x118E0, 0x11950, 0x11C50, 0x11D50, 0x11DA0, 0x16A60, 0x16AC0, 0x16B50,
    0x1D7CE, 0x1D7D8, 0x1D7E2, 0x1D7EC, 0x1D7F6, 0x1E140, 0x1E2F0, 0x1E950, 0x1FBF0]

/-- The value of a decimal digit. -/
def digitValue? (c : Char) : Option Nat :=
  (digitZeros.find? fun base => base ≤ c.toNat && c.toNat < base + 10).map (c.toNat - ·)

/-- Whether a character is a decimal digit of some script. -/
def isDigit (c : Char) : Bool := (digitValue? c).isSome

namespace Text

/-! ## Numerals -/

/-- The decimal numeral of a natural number. -/
def ofNat (n : Nat) : Text := Nat.toDigits 10 n

/-- The decimal numeral of an integer, with a minus sign in front of a negative one. -/
def ofInt : Int → Text
  | .ofNat n => ofNat n
  | .negSucc n => '-' :: ofNat (n + 1)

/-- A non-empty text of decimal digits. -/
def isNumeral (t : Text) : Bool := !t.isEmpty && t.all isDigit

/-- The number that a text of decimal digits writes; other characters count as zero. -/
def readNumeral (t : Text) : Nat :=
  t.foldl (fun n c => 10 * n + (digitValue? c).getD 0) 0

/-! ## Order

The order is stated with a result of type `Bool`, since it decides where a name goes in a sorted
list. That it is irreflexive, transitive and total is all that is used of it. -/

/-- `before s t` when `s` comes strictly earlier than `t` in code point order; a proper beginning
of a text comes before it. -/
def before : Text → Text → Bool
  | _, [] => false
  | [], _ :: _ => true
  | c :: s, d :: t => if c = d then before s t else decide (c.toNat < d.toNat)

theorem before_irrefl (s : Text) : before s s = false := by
  induction s with
  | nil => rfl
  | cons c s ih => simpa [before] using ih

theorem before_trans {s t u : Text} (hst : before s t = true) (htu : before t u = true) :
    before s u = true := by
  induction s generalizing t u with
  | nil =>
    cases u with
    | nil => simp [before] at htu
    | cons => rfl
  | cons c s ih =>
    cases t with
    | nil => simp [before] at hst
    | cons d t =>
      cases u with
      | nil => simp [before] at htu
      | cons e u =>
        simp only [before] at hst htu ⊢
        by_cases hcd : c = d
        · subst hcd
          by_cases hce : c = e
          · subst hce
            simp only [if_true] at hst htu ⊢
            exact ih hst htu
          · rw [if_neg hce] at htu ⊢
            exact htu
        · rw [if_neg hcd, decide_eq_true_eq] at hst
          by_cases hde : d = e
          · subst hde
            rw [if_neg hcd]
            exact decide_eq_true hst
          · rw [if_neg hde, decide_eq_true_eq] at htu
            have hce : c ≠ e := by
              rintro rfl
              omega
            rw [if_neg hce]
            exact decide_eq_true (by omega)

/-- Of two different texts one comes before the other. -/
theorem before_total (s t : Text) : before s t = true ∨ s = t ∨ before t s = true := by
  induction s generalizing t with
  | nil => cases t <;> simp [before]
  | cons c s ih =>
    cases t with
    | nil => simp [before]
    | cons d t =>
      simp only [before]
      by_cases hcd : c = d
      · subst hcd
        simpa using ih t
      · rw [if_neg hcd, if_neg (Ne.symm hcd)]
        have hne : c.toNat ≠ d.toNat := fun h => hcd (Char.toNat_inj.1 h)
        rcases Nat.lt_or_gt_of_ne hne with h | h
        · exact Or.inl (decide_eq_true h)
        · exact Or.inr (Or.inr (decide_eq_true h))

/-! ## Occurrence -/

/-- Whether a text occurs in another as a contiguous run. -/
def occursIn (part : Text) : Text → Bool
  | [] => part.isEmpty
  | c :: t => part.isPrefixOf (c :: t) || occursIn part t

theorem occursIn_iff {part t : Text} : occursIn part t = true ↔ part <:+: t := by
  induction t with
  | nil => simp [occursIn]
  | cons c t ih => simp [occursIn, List.infix_cons_iff, ih]

/-! ## Lists and columns -/

/-- Texts one after the other with commas between them. -/
def commaSeparated (ts : List Text) : Text := List.intercalate [',', ' '] ts

/-- A text set against the right edge of a column of the given width. -/
def alignRight (width : Nat) (t : Text) : Text := t.leftpad width ' '

/-- A text set against the left edge of a column of the given width. -/
def alignLeft (width : Nat) (t : Text) : Text := t.rightpad width ' '

end Text

end GrammarTree
