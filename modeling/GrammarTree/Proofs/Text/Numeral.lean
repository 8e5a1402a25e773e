import GrammarTree.Text.Basic
import Mathlib.Data.List.Basic
import Mathlib.Data.Nat.Digits.Defs

/-!
# Written numerals

The numeral of a number is made of the digits `0` to `9`. Reading it gives the number back, so that
different numbers have different numerals.

Reading goes by the table of all digits, whose first entry has the ordinary ones. The library has
the same round trip for its own reading of a numeral, and the two readings agree on what is written.

Numerals stand in front of delimiters in many of the texts that the program prints. What makes such
a text readable is that the delimiter is no character of the numeral, and the lemmas about the
characters of a numeral are made for that.

What is here:

* `Text.mem_ofNat` and `Text.mem_ofInt`, the characters of numerals;
* `Text.length_ofNat_le`, their length;
* `Text.readNumeral_ofNat`, the round trip, with `Text.ofNat_injective` and `Text.ofInt_injective`.
-/

set_option autoImplicit false

namespace GrammarTree

theorem digitValue?_of_isDigit {c : Char} (h : c.isDigit = true) :
    digitValue? c = some (c.toNat - '0'.toNat) := by
  have hrange : '0'.toNat ≤ c.toNat ∧ c.toNat ≤ '9'.toNat := Char.isDigit_iff_toNat.1 h
  have hzero : (decide ('0'.toNat ≤ c.toNat) && decide (c.toNat < '0'.toNat + 10)) = true := by
    simp only [Bool.and_eq_true, decide_eq_true_eq]
    exact ⟨hrange.1, Nat.lt_succ_of_le hrange.2⟩
  have hfind : digitZeros.find? (fun base => base ≤ c.toNat && c.toNat < base + 10) =
      some '0'.toNat := List.find?_cons_of_pos hzero
  rw [digitValue?, hfind, Option.map_some]

namespace Text

/-! ## The characters of a numeral

What is needed most often is what a numeral does not hold: a line feed, a colon, a quote or a
bracket cannot come from a number. -/

theorem mem_ofNat {n : Nat} {c : Char} (h : c ∈ ofNat n) : c.isDigit = true :=
  Nat.isDigit_of_mem_toDigits (by decide) (by decide) h

theorem mem_ofInt {n : Int} {c : Char} (h : c ∈ ofInt n) : c = '-' ∨ c.isDigit = true := by
  cases n with
  | ofNat n => exact Or.inr (mem_ofNat h)
  | negSucc n => exact (List.mem_cons.1 h).imp_right mem_ofNat

theorem notMem_ofInt {c : Char} (hsign : c ≠ '-') (hdigit : c.isDigit = false) (n : Int) :
    c ∉ ofInt n := by
  intro h
  rcases mem_ofInt h with rfl | hc
  · exact hsign rfl
  · exact Bool.false_ne_true (hdigit.symm.trans hc)

theorem newline_notMem_ofNat (n : Nat) : '\n' ∉ ofNat n := fun h =>
  Bool.false_ne_true (mem_ofNat h)

/-- A number below a power of ten has at most as many digits as the power has factors. -/
theorem length_ofNat_le {n digits : Nat} (hpos : 0 < digits) (h : n < 10 ^ digits) :
    (ofNat n).length ≤ digits :=
  Nat.toDigits_length 10 n digits hpos h

theorem ofNat_ne_nil (n : Nat) : ofNat n ≠ [] := Nat.toDigits_ne_nil

/-! ## Reading a numeral -/

theorem readNumeral_ofNat (n : Nat) : (ofNat n).readNumeral = n := by
  have hdigits : (ofNat n).readNumeral = Nat.ofDigitChars 10 (ofNat n) 0 :=
    List.foldl_ext _ _ _ fun m c hc => by
      rw [digitValue?_of_isDigit (mem_ofNat hc), Option.getD_some]
  rw [hdigits, ofNat, Nat.ofDigitChars_toDigits (by decide) (by decide)]

theorem ofNat_injective {m n : Nat} (h : ofNat m = ofNat n) : m = n := by
  rw [← readNumeral_ofNat m, h, readNumeral_ofNat]

theorem sign_notMem_ofNat (n : Nat) : '-' ∉ ofNat n := fun h => Bool.false_ne_true (mem_ofNat h)

theorem ofInt_injective {m n : Int} (h : ofInt m = ofInt n) : m = n := by
  cases m with
  | ofNat m =>
    cases n with
    | ofNat n => exact congrArg Int.ofNat (ofNat_injective h)
    | negSucc n =>
      refine absurd ?_ (sign_notMem_ofNat m)
      rw [show ofNat m = '-' :: ofNat (n + 1) from h]
      exact List.mem_cons_self ..
  | negSucc m =>
    cases n with
    | ofNat n =>
      refine absurd ?_ (sign_notMem_ofNat n)
      rw [show ofNat n = '-' :: ofNat (m + 1) from h.symm]
      exact List.mem_cons_self ..
    | negSucc n =>
      have hsucc := ofNat_injective (List.cons.inj h).2
      rw [Nat.succ.inj hsucc]

end Text

end GrammarTree
