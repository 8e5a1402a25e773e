import GrammarTree.Proofs.Grammar.Merged
import GrammarTree.Proofs.Grammar.Splitting

/-!
# Texts that are rules

A text is a rule when it holds one separator, with a name in angle brackets in front of it and with
something behind it, up to the first splitting pipe, that is not blank. This file proves that a rule
is read from these texts and from no others, and what is wrong with every other text. The reader
tests its parts before it makes a rule of them. The rule has conditions of its own, and they never
turn down what has passed the tests.

The separators of a text are counted by the places where one occurs. The reader counts parts between
separators instead, and takes the separators from left to right without overlaps. That is the same
number, because a separator cannot overlap another one: its last character stands nowhere else in
it.

What is here:

* `Text.places`, the places where a text occurs in another one, and `IsDivided`, the two sides of a
  text with one separator;
* `Rule.IsRuleText`, the texts that are rules, and `Rule.Lacks`, the fault of every other text;
* `Rule.isRuleText_or_lacks`: every text is one or has the other;
* `Rule.readStrict_reads_rule_texts`: reading tells them apart.
-/

set_option autoImplicit false

namespace GrammarTree

/-! ## Places of a text in another one -/

namespace Text

/-- The places of a text where another one, which is not empty, occurs in it. -/
def places (t part : Text) : List Nat :=
  (List.range t.length).filter fun i => part.isPrefixOf (t.drop i)

theorem places_cons (part : Text) (c : Char) (t : Text) :
    places (c :: t) part =
      if part <+: c :: t then 0 :: (places t part).map Nat.succ
      else (places t part).map Nat.succ := by
  rw [places, List.length_cons, List.range_succ_eq_map, List.filter_cons, List.drop_zero,
    List.filter_map]
  simp only [List.isPrefixOf_iff_prefix]
  rfl

theorem length_mem_places {part left right : Text} (h : part ≠ []) :
    left.length ∈ places (left ++ part ++ right) part := by
  have hlength := List.length_pos_iff.2 h
  rw [places, List.mem_filter, List.mem_range, List.append_assoc, List.drop_left,
    List.isPrefixOf_iff_prefix, List.length_append, List.length_append]
  exact ⟨by omega, List.prefix_append _ _⟩

end Text

/-! ## The two sides -/

/-- A text with one separator, and what stands in front of it and behind it. -/
structure IsDivided (text left right : Text) : Prop where
  /-- The text is made up of them. -/
  eq : text = left ++ separator ++ right
  /-- The separator between them is the only one. -/
  places_eq : text.places separator = [left.length]

theorem length_separated (t : Text) :
    (separated t).length = (Text.places t separator).length + 1 := by
  induction t using separated.induct with
  | case1 => rfl
  | case2 t ih =>
    rw [separated, List.length_cons, ih, Text.places_cons, Text.places_cons, Text.places_cons,
      if_pos (by simp [separator]), if_neg (by simp [separator]), if_neg (by simp [separator])]
    simp only [List.length_cons, List.length_map]
  | case3 c t hc ih =>
    have hstart : ¬ separator <+: c :: t := by
      rintro ⟨rest, hrest⟩
      cases hrest
      exact hc rest rfl rfl
    rw [separated_cons hstart, List.length_modifyHead, ih, Text.places_cons, if_neg hstart,
      List.length_map]

theorem isDivided_of_separated {text left right : Text} (h : separated text = [left, right]) :
    IsDivided text left right := by
  have heq : text = left ++ separator ++ right := by
    rw [← intercalate_separated text, h, List.intercalate_cons_cons, List.intercalate_singleton]
  have hlength : (text.places separator).length = 1 := by
    have hparts := length_separated text
    rw [h] at hparts
    exact (Nat.succ_inj.1 hparts).symm
  obtain ⟨i, hi⟩ := List.length_eq_one_iff.1 hlength
  have hmem : left.length ∈ text.places separator := by
    rw [heq]
    exact Text.length_mem_places (by decide)
  rw [hi, List.mem_singleton] at hmem
  exact ⟨heq, by rw [hi, hmem]⟩

namespace IsDivided

variable {text left right left' right' : Text}

/-- Only one pair of sides makes up a text with one separator. -/
theorem unique (h : IsDivided text left right) (h' : IsDivided text left' right') :
    left = left' ∧ right = right' := by
  have hplaces := h.places_eq
  rw [h'.places_eq, List.singleton_inj] at hplaces
  have heq := h.eq
  rw [h'.eq, List.append_assoc, List.append_assoc] at heq
  obtain ⟨hleft, hrest⟩ := List.append_inj heq hplaces
  exact ⟨hleft.symm, (List.append_cancel_left hrest).symm⟩

theorem separated_eq (h : IsDivided text left right) : separated text = [left, right] := by
  have hlength := length_separated text
  rw [h.places_eq] at hlength
  obtain ⟨left', right', hparts⟩ := List.length_eq_two.1 hlength
  obtain ⟨rfl, rfl⟩ := h.unique (isDivided_of_separated hparts)
  exact hparts

end IsDivided

namespace Rule

/-! ## Texts that are rules and their faults

The faults are stated in the order in which they are looked for, each with what rules out those
before it. So a text has only one, and no order has to be mentioned later. -/

/-- A text that a rule can be read from. -/
def IsRuleText (text : Text) : Prop :=
  ∃ left right piece, IsDivided text left right ∧ (∃ name, name ≠ [] ∧ left.trim = symbolOf name) ∧
    Pieces.IsFirstPiece right piece ∧ piece.isBlankOnly = false

/-- The first thing that is wrong with a text that is not a rule. -/
inductive Lacks (text : Text) : RuleFault → Prop where
  /-- It holds no separator or several. -/
  | separators (h : (text.places separator).length ≠ 1) :
    Lacks text (.separators (text.places separator).length)
  /-- What stands in front of the separator is not a name in angle brackets. -/
  | leftSide {left right : Text} (hsides : IsDivided text left right)
    (h : ¬ ∃ name, name ≠ [] ∧ left.trim = symbolOf name) : Lacks text .leftSide
  /-- Nothing but blanks stands between the separator and the first splitting pipe. -/
  | emptyFirst {left right piece : Text} (hsides : IsDivided text left right)
    (hname : ∃ name, name ≠ [] ∧ left.trim = symbolOf name)
    (hpiece : Pieces.IsFirstPiece right piece) (h : piece.isBlankOnly = true) :
    Lacks text .emptyFirst

variable {text left right : Text} {line : Option Int} {fault : RuleFault}

/-- Every text is a rule or has a fault. -/
theorem isRuleText_or_lacks (text : Text) : IsRuleText text ∨ ∃ fault, Lacks text fault := by
  by_cases hcount : (text.places separator).length = 1
  · have hlength := length_separated text
    rw [hcount] at hlength
    obtain ⟨left, right, hparts⟩ := List.length_eq_two.1 hlength
    have hsides := isDivided_of_separated hparts
    obtain ⟨piece, pieces, hcut⟩ := List.exists_cons_of_ne_nil (Pieces.cutAfter_ne_nil none right)
    have hpiece := Pieces.isFirstPiece_of_cut hcut
    by_cases hname : ∃ name, name ≠ [] ∧ left.trim = symbolOf name
    · cases hblank : piece.isBlankOnly with
      | false => exact Or.inl ⟨left, right, piece, hsides, hname, hpiece, hblank⟩
      | true => exact Or.inr ⟨_, .emptyFirst hsides hname hpiece hblank⟩
    · exact Or.inr ⟨_, .leftSide hsides hname⟩
  · exact Or.inr ⟨_, .separators hcount⟩

/-! ## Reading -/

/-- The first alternative of a side is its first piece, which is never dropped. -/
theorem exists_alternativesOf_eq {side piece : Text} (h : Pieces.IsFirstPiece side piece) :
    ∃ others, alternativesOf side = Pieces.unescape piece.trim :: others := by
  obtain ⟨first, pieces, hcut⟩ := List.exists_cons_of_ne_nil (Pieces.cutAfter_ne_nil none side)
  obtain rfl := h.unique (Pieces.isFirstPiece_of_cut hcut)
  obtain ⟨kept, hkept⟩ : ∃ kept, Pieces.dropEmptyTail (piece :: pieces) = piece :: kept := by
    cases pieces with
    | nil => exact ⟨[], rfl⟩
    | cons next pieces =>
      rw [Pieces.dropEmptyTail]
      split
      · exact ⟨[], rfl⟩
      · exact ⟨_, rfl⟩
  refine ⟨kept.map fun piece => Pieces.unescape piece.trim, ?_⟩
  rw [alternativesOf, Pieces.cut, hcut, hkept, List.map_cons]

/-- The conditions of a rule accept whatever passes the tests of the reader. -/
theorem read_of_isDivided (hsides : IsDivided text left right)
    (hname : isPlaceholder left.trim = true) (hfirst : (alternativesOf right).head? ≠ some []) :
    ∃ r, ofParts line (bareName left.trim) (alternativesOf right) = .ok r ∧
      read text line = .ok r := by
  obtain ⟨piece, pieces, hcut⟩ := List.exists_cons_of_ne_nil (Pieces.cutAfter_ne_nil none right)
  obtain ⟨others, halternatives⟩ := exists_alternativesOf_eq (Pieces.isFirstPiece_of_cut hcut)
  rw [halternatives, List.head?_cons, Ne, Option.some_inj] at hfirst
  obtain ⟨r, hparts⟩ : ∃ r, ofParts line (bareName left.trim) (alternativesOf right) = .ok r := by
    rw [halternatives]
    exact ⟨_, ofParts_self ⟨line, bareName left.trim, Pieces.unescape piece.trim, others,
      (eq_symbolOf_of_isPlaceholder hname).1, hfirst⟩ line⟩
  rw [isPlaceholder] at hname
  refine ⟨r, hparts, ?_⟩
  rw [read, hsides.separated_eq]
  simp only [hname, if_true, hparts]

theorem IsRuleText.exists_read (h : IsRuleText text) (line : Option Int) :
    ∃ r, read text line = .ok r := by
  obtain ⟨left, right, piece, hsides, hname, hpiece, hblank⟩ := h
  obtain ⟨others, halternatives⟩ := exists_alternativesOf_eq hpiece
  have hfirst : (alternativesOf right).head? ≠ some [] := by
    rw [halternatives, List.head?_cons, Ne, Option.some_inj, Pieces.unescape_eq_nil_iff,
      Text.trim_eq_nil_iff, hblank]
    exact Bool.false_ne_true
  obtain ⟨r, -, hr⟩ := read_of_isDivided hsides (isPlaceholder_iff.2 hname) hfirst
  exact ⟨r, hr⟩

theorem Lacks.read_eq (h : Lacks text fault) (line : Option Int) :
    read text line = .error fault := by
  cases h with
  | separators h =>
    rw [read]
    split
    · rename_i left right hparts
      exact absurd (by rw [(isDivided_of_separated hparts).places_eq]; rfl) h
    · rw [length_separated, Nat.add_sub_cancel]
  | @leftSide left right hsides h =>
    have hname : left.trim.isBetween ['<'] ['>'] = false :=
      Bool.eq_false_iff.2 fun hbetween => h (isPlaceholder_iff.1 hbetween)
    rw [read, hsides.separated_eq]
    simp only [hname]
    rfl
  | @emptyFirst left right piece hsides hname hpiece h =>
    have hbetween : left.trim.isBetween ['<'] ['>'] = true := isPlaceholder_iff.2 hname
    obtain ⟨others, halternatives⟩ := exists_alternativesOf_eq hpiece
    rw [Text.trim_eq_nil_iff.2 h] at halternatives
    rw [read, hsides.separated_eq]
    simp only [hbetween, if_true, halternatives, Pieces.unescape]
    cases bareName left.trim <;> rfl

theorem read_eq_error_iff : read text line = .error fault ↔ Lacks text fault := by
  refine ⟨fun h => ?_, fun h => h.read_eq line⟩
  rcases isRuleText_or_lacks text with htext | ⟨fault', hlacks⟩
  · obtain ⟨r, hr⟩ := htext.exists_read line
    rw [hr] at h
    cases h
  · rw [hlacks.read_eq line] at h
    cases h
    exact hlacks

theorem exists_read_eq_ok_iff : (∃ r, read text line = .ok r) ↔ IsRuleText text := by
  refine ⟨?_, fun h => h.exists_read line⟩
  rintro ⟨r, hr⟩
  refine (isRuleText_or_lacks text).resolve_right ?_
  rintro ⟨fault, hlacks⟩
  rw [hlacks.read_eq line] at hr
  cases hr

theorem not_isRuleText_iff : ¬ IsRuleText text ↔ ∃ fault, Lacks text fault := by
  refine ⟨fun h => (isRuleText_or_lacks text).resolve_left h, ?_⟩
  rintro ⟨fault, hlacks⟩ htext
  obtain ⟨r, hr⟩ := htext.exists_read none
  rw [hlacks.read_eq none] at hr
  cases hr

theorem readStrict_eq_ok_iff {r : Rule} :
    readStrict text line = .ok r ↔ read text line = .ok r := by
  rw [readStrict]
  cases read text line with
  | ok rule => simp only [Except.ok.injEq]
  | error fault => exact iff_of_false nofun nofun

theorem readStrict_eq_error_iff {e : Error} :
    readStrict text line = .error e ↔
      ∃ fault, Lacks text fault ∧ e = .malformedRule text fault.reason line := by
  simp only [← @read_eq_error_iff text line]
  rw [readStrict]
  cases read text line with
  | ok rule => exact iff_of_false nofun nofun
  | error fault => simp only [Except.error.injEq, exists_eq_left', eq_comm]

theorem read?_eq_none_iff : read? text line = none ↔ ¬ IsRuleText text := by
  rw [← @exists_read_eq_ok_iff text line, read?]
  cases read text line with
  | ok rule => exact iff_of_false (Option.some_ne_none rule) fun h => h ⟨rule, rfl⟩
  | error fault =>
    refine iff_of_true rfl ?_
    rintro ⟨r, hr⟩
    cases hr

/-- **A rule is read from the texts that are rules and from no others.** It has the name in front of
the separator, the alternatives behind it and the given line, no separator stands in an alternative,
and no alternative has blanks at its ends. What passes the tests of the reader is accepted by the
rule itself. Every other text fails with its one fault, in an error with the text and the line, and
where the fault does not matter there is no rule. -/
theorem readStrict_reads_rule_texts (text : Text) (line : Option Int) :
    ((∃ r, readStrict text line = .ok r) ↔ IsRuleText text) ∧
    (∀ r, readStrict text line = .ok r → r.line = line ∧
      (∃ left right, IsDivided text left right ∧ r.symbol = left.trim ∧
        r.alternatives = alternativesOf right) ∧
      ∀ a ∈ r.alternatives, ¬ separator <:+: a ∧ a.trim = a) ∧
    (∀ left right, IsDivided text left right → isPlaceholder left.trim = true →
      (alternativesOf right).head? ≠ some [] →
      ∃ r, ofParts line (bareName left.trim) (alternativesOf right) = .ok r ∧
        readStrict text line = .ok r) ∧
    (∀ e, readStrict text line = .error e ↔
      ∃ fault, Lacks text fault ∧ e = .malformedRule text fault.reason line) ∧
    (¬ IsRuleText text ↔ ∃ fault, Lacks text fault) ∧
    (read? text line = none ↔ ¬ IsRuleText text) := by
  simp only [readStrict_eq_ok_iff]
  refine ⟨exists_read_eq_ok_iff, fun r hr => ?_, fun _ _ => read_of_isDivided, fun _ =>
    readStrict_eq_error_iff, not_isRuleText_iff, read?_eq_none_iff⟩
  obtain ⟨left, right, hparts, hsymbol, halternatives, hline⟩ := read_eq_ok hr
  exact ⟨hline, ⟨left, right, isDivided_of_separated hparts, hsymbol.symm, halternatives.symm⟩,
    (restorable_of_read hr).alternatives⟩

/-- A rule with an escaped pipe and a blank alternative. -/
def blankTailText : Text := " <arg list> ::= x\\|y | ".toList

theorem readStrict_reads_rule_texts_of_blankTailText :
    IsDivided blankTailText " <arg list> ".toList " x\\|y | ".toList ∧
    ∃ r, readStrict blankTailText (some 3) = .ok r ∧ r.symbol = "<arg list>".toList ∧
      r.alternatives = ["x|y".toList, []] := by
  have hsides : IsDivided blankTailText " <arg list> ".toList " x\\|y | ".toList :=
    ⟨by decide, by decide⟩
  obtain ⟨-, hread, haccepted, -⟩ := readStrict_reads_rule_texts blankTailText (some 3)
  obtain ⟨r, -, hr⟩ := haccepted _ _ hsides (by decide) (by decide)
  obtain ⟨-, ⟨left, right, hsides', hsymbol, halternatives⟩, -⟩ := hread r hr
  obtain ⟨rfl, rfl⟩ := hsides.unique hsides'
  exact ⟨hsides, r, hr, hsymbol.trans (by decide), halternatives.trans (by decide)⟩

end Rule

end GrammarTree
