import GrammarTree.CommandLine.Program
import GrammarTree.Proofs.Grammar.Numbering
import GrammarTree.Proofs.Grammar.RoundTrip
import GrammarTree.Proofs.Text.Rows

/-!
# Numbers beside the text

The listing with a margin prints the lines of a grammar text, and the numbers in its margin are
counted by rows. This file proves for which texts a number stands beside its own rule: for those
that have no line break but line feeds, the end of the last line aside.

What the listing is meant to show is said of its output alone, as a reader sees it: it has a row for
each row of the text, and beside the row where a rule starts stands the number of the rule. Nothing
in this refers to the function that makes the listing, or to the way in which it cuts the text.

One direction compares row by row. For the other one it is enough to count. The listing has as many
rows as the text has lines, and if these are as many as the rows of the text, every line but the
last ends in a line feed, as `Proofs.Text.Rows` shows.

What is here:

* `Grammar.Carries`: the entry in front of a line of the listing, of which there is only one;
* `Grammar.ShowsNumbers`, what the listing is meant to show;
* `Grammar.showsNumbers_listing_iff`, the texts for which it does, and a text for which it does not.
-/

set_option autoImplicit false

namespace GrammarTree

namespace Grammar

/-! ## Entries

A line of the listing has its entry set to the right of a column, a bar, and then the text. An entry
has neither bars nor blanks, so it can be read back: it is what stands in front of the first bar,
without the blanks. -/

/-- Whether a line of a listing has an entry in its margin. -/
def Carries (entry shown : Text) : Prop :=
  Text.alignRight 3 entry ++ " | ".toList <+: shown

/-- Only one entry without bars and blanks stands in a margin. -/
theorem Carries.eq_filter {entry shown : Text} (h : Carries entry shown)
    (hentry : ∀ c ∈ entry, c.isDigit = true) :
    (shown.takeWhile (· ≠ '|')).filter (· ≠ ' ') = entry := by
  -- The entry is what stands in front of the first bar, without its blanks.
  obtain ⟨line, rfl⟩ := h
  have hdigit : ∀ c ∈ entry, c ≠ '|' ∧ c ≠ ' ' := by
    intro c hc
    refine ⟨?_, ?_⟩ <;> rintro rfl <;> exact absurd (hentry _ hc) (by decide)
  have hbar : ∀ c ∈ Text.alignRight 3 entry ++ [' '], decide (c ≠ '|') = true := by
    intro c hc
    simp only [Text.alignRight, List.leftpad, List.append_assoc, List.mem_append,
      List.mem_replicate, List.mem_singleton] at hc
    rcases hc with ⟨-, rfl⟩ | hc | rfl
    · decide
    · exact decide_eq_true (hdigit c hc).1
    · decide
  have hsplit : Text.alignRight 3 entry ++ " | ".toList ++ line =
      (Text.alignRight 3 entry ++ [' ']) ++ '|' :: ' ' :: line := by
    simp
  have hself : entry.filter (· ≠ ' ') = entry :=
    List.filter_eq_self.2 fun c hc => decide_eq_true (hdigit c hc).2
  rw [hsplit, List.takeWhile_append_of_pos hbar, List.takeWhile_cons_of_neg (by decide),
    List.append_nil, List.filter_append, Text.alignRight, List.leftpad, List.filter_append, hself,
    List.filter_replicate_of_neg (by decide)]
  exact List.append_nil entry

/-! ## The margin beside the rows -/

/-- Whether an output shows the rows of a grammar text with the numbers of its rules. -/
structure ShowsNumbers (t output : Text) : Prop where
  /-- There is one line of output for each row. -/
  length_eq : output.shownRows.length = t.shownRows.length
  /-- Behind its margin, each line of output has what stands in its row, up to breaks at its end. -/
  content : ∀ (i : Nat) (shown row : Text), output.shownRows[i]? = some shown →
    t.shownRows[i]? = some row → ∃ entry line tail,
      shown = Text.alignRight 3 entry ++ " | ".toList ++ line ∧ row = line ++ tail ∧
        ∀ c ∈ tail, isLineBreak c = true
  /-- A line of output has a number in its margin exactly when the rule of this number starts at its
  row. -/
  number : ∀ (i : Nat) (shown : Text), output.shownRows[i]? = some shown → ∀ n : Nat,
    Carries (Text.ofNat n) shown ↔ ∃ b r, IsNumbered t n b r ∧ b.line = i + 1
  /-- A line of output has nothing in its margin exactly when no rule starts at its row. -/
  none : ∀ (i : Nat) (shown : Text), output.shownRows[i]? = some shown →
    (Carries [] shown ↔ ∀ number b r, IsNumbered t number b r → b.line ≠ i + 1)

variable {t : Text} {i : Nat} {shown : Text}

/-- The entry of the margin beside a line, counted from 0. -/
def entry (t : Text) (i : Nat) : Text := (marginRows t)[i]?.getD []

theorem entry_cases (t : Text) (i : Nat) : entry t i = [] ∨ ∃ n, entry t i = Text.ofNat n := by
  rw [entry]
  cases hrow : (marginRows t)[i]? with
  | none => exact Or.inl rfl
  | some row =>
    refine (eq_of_getElem?_rows_marginFrom (pairwise_startLines t)
      (fun _ => pos_of_mem_startLines) hrow).imp id ?_
    rintro ⟨n, -, hn⟩
    exact ⟨1 + n, hn⟩

theorem isDigit_of_mem_entry {c : Char} (h : c ∈ entry t i) : c.isDigit = true := by
  rcases entry_cases t i with hnil | ⟨n, hn⟩
  · rw [hnil] at h
    cases h
  · rw [hn] at h
    exact Text.mem_ofNat h

theorem entry_eq_ofNat {n : Nat} :
    entry t i = Text.ofNat n ↔ ∃ b r, IsNumbered t n b r ∧ b.line = i + 1 := by
  rw [← getElem?_marginRows, entry]
  cases (marginRows t)[i]? with
  | none => exact iff_of_false (Text.ofNat_ne_nil n).symm nofun
  | some row => rw [Option.getD_some, Option.some_inj]

theorem entry_eq_nil :
    entry t i = [] ↔ ∀ number b r, IsNumbered t number b r → b.line ≠ i + 1 := by
  constructor
  · rintro h number b r ⟨n, hn, hb, hr⟩ hline
    have hentry : entry t i = Text.ofNat (n + 1) :=
      entry_eq_ofNat.2 ⟨b, r, ⟨n, by omega, hb, hr⟩, hline⟩
    exact Text.ofNat_ne_nil _ (hentry.symm.trans h)
  · intro hnone
    rw [entry]
    cases hrow : (marginRows t)[i]? with
    | none => rfl
    | some row => exact eq_nil_of_getElem?_marginRows hrow hnone

/-- The lines of the listing are the lines of the text behind their entries. -/
theorem shownRows_marginListing (t : Text) :
    (marginListing t).shownRows =
      t.lines.zipIdx.map fun item =>
        Text.alignRight 3 (entry t item.2) ++ " | ".toList ++ item.1 := by
  refine Text.shownRows_ofLines fun shown hshown => ?_
  obtain ⟨⟨line, i⟩, hitem, rfl⟩ := List.mem_map.1 hshown
  have hline : line ∈ t.lines := List.fst_mem_of_mem_zipIdx hitem
  rw [Text.lines_eq_map_chunks] at hline
  obtain ⟨chunk, -, rfl⟩ := List.mem_map.1 hline
  intro hfeed
  simp only [Text.alignRight, List.leftpad, List.mem_append, List.mem_replicate] at hfeed
  rcases hfeed with ((⟨-, hfeed⟩ | hfeed) | hfeed) | hfeed
  · exact absurd hfeed (by decide)
  · exact Bool.false_ne_true (isDigit_of_mem_entry (t := t) (i := i) hfeed)
  · exact absurd hfeed (by decide)
  · exact Text.newline_notMem_content chunk hfeed

theorem getElem?_shownRows_marginListing (h : (marginListing t).shownRows[i]? = some shown) :
    ∃ chunk, (Text.chunks t)[i]? = some chunk ∧
      shown = Text.alignRight 3 (entry t i) ++ " | ".toList ++ Text.content chunk := by
  rw [shownRows_marginListing, Text.lines_eq_map_chunks, List.getElem?_map, List.getElem?_zipIdx,
    List.getElem?_map] at h
  cases hchunk : (Text.chunks t)[i]? with
  | none =>
    rw [hchunk] at h
    cases h
  | some chunk =>
    rw [hchunk] at h
    refine ⟨chunk, rfl, ?_⟩
    simpa using h.symm

/-- What a line of the listing has in its margin. -/
theorem carries_iff (h : (marginListing t).shownRows[i]? = some shown) {item : Text}
    (hitem : ∀ c ∈ item, c.isDigit = true) : Carries item shown ↔ entry t i = item := by
  obtain ⟨chunk, -, rfl⟩ := getElem?_shownRows_marginListing h
  have hentry : Carries (entry t i)
      (Text.alignRight 3 (entry t i) ++ " | ".toList ++ Text.content chunk) :=
    List.prefix_append _ _
  constructor
  · intro hcarries
    rw [← hcarries.eq_filter hitem]
    exact (hentry.eq_filter fun _ => isDigit_of_mem_entry).symm
  · rintro rfl
    exact hentry

/-- **The listing with a margin shows the numbers beside their rules for the texts that have a line
feed at the end of every line but the last one, and for no other texts.** -/
theorem showsNumbers_listing_iff (t : Text) :
    ShowsNumbers t (Program.listing t .margin) ↔ t.EndsInFeeds := by
  have hlength : (marginListing t).shownRows.length = t.lines.length := by
    rw [shownRows_marginListing, List.length_map, List.length_zipIdx]
  constructor
  · intro h
    exact Text.endsInFeeds_of_length_eq (hlength.symm.trans h.length_eq)
  · intro h
    refine ⟨?_, fun i shown row hshown hrow => ?_, fun i shown hshown n => ?_,
      fun i shown hshown => ?_⟩
    · rw [h.shownRows_eq, List.length_map]
      rw [Text.lines_eq_map_chunks, List.length_map] at hlength
      exact hlength
    · obtain ⟨chunk, hchunk, hline⟩ := getElem?_shownRows_marginListing hshown
      rw [h.shownRows_eq, List.getElem?_map, hchunk, Option.map_some, Option.some_inj] at hrow
      obtain ⟨tail, htail, hbreaks⟩ := Text.exists_withoutFeed_eq (List.mem_of_getElem? hchunk)
      exact ⟨entry t i, Text.content chunk, tail, hline, hrow.symm.trans htail,
        fun c hc => (hbreaks c hc).1⟩
    · rw [carries_iff hshown fun _ => Text.mem_ofNat, entry_eq_ofNat]
    · rw [carries_iff hshown fun _ hc => absurd hc List.not_mem_nil, entry_eq_nil]

/-- A form feed ends a line, but no row. -/
def formFeedText : Text := ['a', '\x0c', 'b', '\n'] ++ "<s> ::= x".toList

theorem not_forall_showsNumbers : ¬ ∀ t, ShowsNumbers t (Program.listing t .margin) := by
  intro h
  have hlength := (h formFeedText).length_eq
  exact absurd hlength (by decide)

end Grammar

end GrammarTree
