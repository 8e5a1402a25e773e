import GrammarTree.Proofs.Command.Forms

/-!
# Spelled commands

Outside a selection a command line is read by trying one form after the other. This file describes
the commands form by form and without an order, and proves that what is read is what is spelled:
every spelled command is read as such, and everything else is refused.

The order of the forms could matter in two ways. A text could have two forms, and the later one
would then be lost; or a form that is tried early could claim a text that does not have it, and
refuse it with an error where a later form would fit. Most forms are told apart by the first
character: operators, digits, the letters and the sign of a path have nothing in common. Three
questions are left, and each is settled by a lemma. A keyword is one character long, and a path with
the same letter is longer. A link starts with a number and is not one. A path from a node also has
the shape of a path from the current node, with a pattern that starts with a numeral, and so the
form of the latter is defined as what is left over.

What is here:

* `Command.Spells`, the texts of commands with the numerals in them;
* `Command.guarded`, a command whose numerals may be too long, which is what every form comes to;
* `Command.readDefault_of_spells`: the forms that are tried first do not get in the way;
* `Command.spells_or_invalid`: a form is found if there is one;
* `Command.read_eq_ok_iff` and `Command.read_invalid_iff`, both for a whole line, with the trimming.
-/

set_option autoImplicit false

namespace GrammarTree

namespace Command

/-! ## The forms together

One constructor stands for one form, and the forms exclude each other by what they are: nothing in
the definition says that one of them is tried before another. -/

/-- The texts of commands outside a selection, with the numerals in them. The letters are those that
a path command may start with. -/
inductive Spells (letters : List Char) : Text → List Text → Command → Prop where
  /-- A keyword. -/
  | keyword {letter : Char} {command : Command} (h : (letter, command) ∈ keywords) :
    Spells letters [letter] [] command
  /-- An operator and a number. -/
  | operation {operator : Char} {command : Nat → Command} {blanks digits : Text}
    (hoperator : (operator, command) ∈ operators) (hblanks : blanks.isBlankOnly = true)
    (hdigits : digits.isNumeral = true) :
    Spells letters (operator :: (blanks ++ digits)) [digits] (command digits.readNumeral)
  /-- A number. -/
  | node {digits : Text} (hdigits : digits.isNumeral = true) :
    Spells letters digits [digits] (.beginSelection (some digits.readNumeral))
  /-- Two numbers. -/
  | link {t parent child : Text} (h : IsLink t parent child) :
    Spells letters t [parent, child] (.link parent.readNumeral child.readNumeral)
  /-- A letter, a number and a pattern. -/
  | pathFromNode {t digits pattern : Text} (h : IsPathFromNode letters t digits pattern) :
    Spells letters t [digits] (.growPath pattern (some digits.readNumeral))
  /-- A letter and a pattern, unless a number and a pattern follow the letter. -/
  | pathFromCurrent {letter : Char} {gap pattern : Text} (hletter : letter ∈ letters)
    (hgap : IsGap gap) (hpattern : IsPattern pattern)
    (hnode : ∀ digits inner, ¬ IsPathFromNode letters (letter :: (gap ++ pattern)) digits inner) :
    Spells letters (letter :: (gap ++ pattern)) [] (.growPath pattern none)
  /-- The sign of a path and a pattern. -/
  | pathSign {blanks pattern : Text} (hblanks : blanks.isBlankOnly = true)
    (hpattern : IsPattern pattern) :
    Spells letters ('>' :: (blanks ++ pattern)) [] (.growPath pattern none)

/-! ## Numerals that are too long -/

/-- A command with numerals in it, which may be too long. -/
def guarded (numerals : List Text) (command : Command) : Except Error Command :=
  if ∀ digits ∈ numerals, digits.length ≤ maxDigits then .ok command else .error .numeralTooLong

theorem guarded_eq_ok {numerals : List Text} {command command' : Command} :
    guarded numerals command = .ok command' ↔
      command = command' ∧ ∀ digits ∈ numerals, digits.length ≤ maxDigits := by
  rw [guarded]
  split
  · rename_i hshort
    rw [Except.ok.injEq]
    exact (and_iff_left hshort).symm
  · rename_i hlong
    exact iff_of_false nofun fun h => hlong h.2

theorem readNumber_bind_eq_guarded (digits : Text) (f : Nat → Command) :
    (readNumber digits >>= fun number => return f number) =
      guarded [digits] (f digits.readNumeral) := by
  rw [readNumber, guarded]
  simp only [List.forall_mem_singleton]
  split <;> rfl

theorem readNumber_bind_bind_eq_guarded (digits digits' : Text) (f : Nat → Nat → Command) :
    (do
      let number ← readNumber digits
      let number' ← readNumber digits'
      return f number number') =
      guarded [digits, digits'] (f digits.readNumeral digits'.readNumeral) := by
  by_cases hdigits : digits.length ≤ maxDigits
  · have hnumber : readNumber digits = .ok digits.readNumeral := if_pos hdigits
    have hguard : guarded [digits, digits'] (f digits.readNumeral digits'.readNumeral) =
        guarded [digits'] (f digits.readNumeral digits'.readNumeral) := by
      simp only [guarded, List.forall_mem_cons, hdigits, true_and]
    rw [hnumber, hguard]
    exact readNumber_bind_eq_guarded digits' (f digits.readNumeral)
  · have hnumber : readNumber digits = .error .numeralTooLong := if_neg hdigits
    rw [hnumber, guarded, if_neg]
    · rfl
    · exact fun h => hdigits (h digits (List.mem_cons_self ..))

/-! ## What is spelled is read

The texts are sorted by their first character, as the reader does it. For each class of characters
one lemma says which of the forms are still possible, and the cases of a spelled command are then
one rewrite each. -/

variable {t : Text} {c : Char}

theorem ofKeyword?_eq_none (h : ∀ entry ∈ keywords, t ≠ [entry.1]) : ofKeyword? t = none := by
  cases hkeyword : ofKeyword? t with
  | none => rfl
  | some command =>
    obtain ⟨letter, ht, hmem⟩ := ofKeyword?_eq_some.1 hkeyword
    exact absurd ht (h _ hmem)

theorem ofKeyword?_of_isDigit (hc : isDigit c = true) (t : Text) : ofKeyword? (c :: t) = none := by
  have hdigits : ∀ entry ∈ keywords, isDigit entry.1 = false := by decide
  refine ofKeyword?_eq_none fun entry hentry ht => ?_
  have hfalse := hdigits entry hentry
  rw [← (List.cons.inj ht).1, hc] at hfalse
  cases hfalse

theorem ofKeyword?_of_ne_nil {t : Text} (ht : t ≠ []) (c : Char) : ofKeyword? (c :: t) = none :=
  ofKeyword?_eq_none fun _ _ h => ht (List.cons.inj h).2

theorem IsPathFromNode.head_mem {letters : List Char} {digits pattern : Text}
    (h : IsPathFromNode letters (c :: t) digits pattern) : c ∈ letters := by
  cases h
  assumption

theorem pathFromNode?_eq_none_iff :
    pathFromNode? t = none ↔ ∀ digits pattern, ¬ IsPathFromNode pathLetters t digits pattern := by
  rw [Option.eq_none_iff_forall_ne_some]
  simp only [ne_eq, Prod.forall, pathFromNode?_eq_some]

/-- The characters that a path command may start with. -/
def pathStarts : List Char := '>' :: pathLetters

theorem pathStarts_classes : ∀ c ∈ pathStarts, isOperator c = false ∧ isDigit c = false := by
  intro c hc
  simp only [pathStarts, pathLetters, List.mem_cons, List.not_mem_nil, or_false] at hc
  rcases hc with rfl | rfl | rfl | rfl <;> exact ⟨rfl, rfl⟩

theorem pathFromNode?_eq_none (hc : c ∉ pathStarts) (t : Text) : pathFromNode? (c :: t) = none :=
  pathFromNode?_eq_none_iff.2 fun _ _ h => hc (List.mem_cons_of_mem _ h.head_mem)

theorem pathFromCurrent?_eq_none (hc : c ∉ pathStarts) (t : Text) :
    pathFromCurrent? (c :: t) = none := by
  obtain ⟨hsign, hletter⟩ := not_or.1 (List.mem_cons.not.1 hc)
  rw [Option.eq_none_iff_forall_ne_some]
  exact fun pattern h => hletter ((pathFromCurrent?_eq_some hsign).1 h).1

theorem operation?_eq_none (hc : isOperator c = false) (t : Text) : operation? (c :: t) = none := by
  rw [operation?, hc]
  rfl

theorem isOperator_of_isDigit (hc : isDigit c = true) : isOperator c = false := by
  cases hoperator : isOperator c with
  | false => rfl
  | true =>
    simp only [isOperator, Bool.or_eq_true, decide_eq_true_eq] at hoperator
    rcases hoperator with ((rfl | rfl) | rfl) | rfl <;> exact absurd hc (by decide)

/-- What starts with an operator is read as an operator. -/
theorem readDefault_operator (hoperator : isOperator c = true) (ht : t ≠ []) {argument : Text}
    (h : operation? (c :: t) = some (c, argument)) :
    readDefault (c :: t) = readOperation (c :: t) c argument := by
  have hc : c ∉ pathStarts := fun hmem => by
    have := (pathStarts_classes c hmem).1
    rw [hoperator] at this
    cases this
  simp only [readDefault, ofKeyword?_of_ne_nil ht, pathFromNode?_eq_none hc,
    pathFromCurrent?_eq_none hc, h]

/-- What starts with a digit is read as a number or as a link. -/
theorem readDefault_digit (hdigit : isDigit c = true) (t : Text) :
    readDefault (c :: t) =
      if Text.isNumeral (c :: t) then
        guarded [c :: t] (.beginSelection (some (Text.readNumeral (c :: t))))
      else
        match linkEnds? (c :: t) with
        | some (parent, child) =>
          guarded [parent, child] (.link parent.readNumeral child.readNumeral)
        | none => .error (.invalidCommand (c :: t) (CommandFault.unknown (c :: t)).reason) := by
  have hc : c ∉ pathStarts := fun hmem => by
    have := (pathStarts_classes c hmem).2
    rw [hdigit] at this
    cases this
  simp only [readDefault, ofKeyword?_of_isDigit hdigit, pathFromNode?_eq_none hc,
    pathFromCurrent?_eq_none hc, operation?_eq_none (isOperator_of_isDigit hdigit)]
  refine ite_congr rfl (fun _ => readNumber_bind_eq_guarded _ _) fun _ => ?_
  cases linkEnds? (c :: t) with
  | none => rfl
  | some ends => exact readNumber_bind_bind_eq_guarded ends.1 ends.2 .link

theorem exists_cons_of_isNumeral {digits : Text} (h : digits.isNumeral = true) :
    ∃ c ds, digits = c :: ds ∧ isDigit c = true := by
  obtain ⟨hne, hdigits⟩ := isNumeral_iff.1 h
  obtain ⟨c, ds, rfl⟩ := List.exists_cons_of_ne_nil hne
  exact ⟨c, ds, rfl, hdigits c (List.mem_cons_self ..)⟩

/-- A link starts with a number and is not one. -/
theorem IsLink.exists_cons {parent child : Text} (h : IsLink t parent child) :
    ∃ c rest, t = c :: rest ∧ isDigit c = true ∧ ¬ t.isNumeral = true := by
  have hsplit : parent.isNumeral = true ∧ ∃ rest, t = parent ++ rest ∧ startsBlank rest = true := by
    cases h with
    | apart hparent hgap _ => exact ⟨hparent, _, rfl, hgap.startsBlank_append _⟩
    | joined hparent hgap _ _ _ => exact ⟨hparent, _, rfl, hgap.startsBlank_append _⟩
  obtain ⟨hparent, rest, rfl, hblank⟩ := hsplit
  obtain ⟨c, ds, rfl, hc⟩ := exists_cons_of_isNumeral hparent
  refine ⟨c, ds ++ rest, rfl, hc, fun hnumeral => ?_⟩
  cases rest with
  | nil => cases hblank
  | cons d rest =>
    have hd := (isNumeral_iff.1 hnumeral).2 d (by simp)
    rw [isDigit_of_isBlank hblank] at hd
    cases hd

/-- **A spelled command is read**, unless one of its numerals is too long. -/
theorem readDefault_of_spells {numerals : List Text} {command : Command}
    (h : Spells pathLetters t numerals command) : readDefault t = guarded numerals command := by
  cases h with
  | keyword hmem =>
    rw [readDefault, ofKeyword?_eq_some.2 ⟨_, rfl, hmem⟩]
    rfl
  | @operation operator command blanks digits hmem hblanks hdigits =>
    obtain ⟨hoperator, hcommand⟩ := isOperator_of_mem hmem
    have hne : blanks ++ digits ≠ [] :=
      List.append_ne_nil_of_right_ne_nil _ (isNumeral_iff.1 hdigits).1
    rw [readDefault_operator hoperator hne (operation?_operator hoperator hblanks hdigits),
      readOperation, if_neg (isNumeral_iff.1 hdigits).1, if_pos hdigits, ← hcommand]
    exact readNumber_bind_eq_guarded digits (ofOperator operator)
  | node hdigits =>
    obtain ⟨c, ds, rfl, hc⟩ := exists_cons_of_isNumeral hdigits
    rw [readDefault_digit hc, if_pos hdigits]
  | link hlink =>
    obtain ⟨c, rest, rfl, hc, hnumeral⟩ := hlink.exists_cons
    rw [readDefault_digit hc, if_neg hnumeral, linkEnds?_eq_some.2 hlink]
  | pathFromNode hnode =>
    -- A keyword is a single character, and a path has at least a gap behind its letter.
    have hkeyword : ofKeyword? t = none := by
      cases hnode with
      | intro _ hgap =>
        exact ofKeyword?_of_ne_nil (List.append_ne_nil_of_left_ne_nil hgap.ne_nil _) _
    rw [readDefault, hkeyword, pathFromNode?_eq_some.2 hnode]
    exact readNumber_bind_eq_guarded _ _
  | @pathFromCurrent letter gap pattern hletter hgap hpattern hnode =>
    have hsign : letter ≠ '>' := by
      rintro rfl
      exact absurd hletter (by decide)
    have hcurrent : pathFromCurrent? (letter :: (gap ++ pattern)) = some pattern :=
      (pathFromCurrent?_eq_some hsign).2 ⟨hletter, gap, rfl, hgap, hpattern⟩
    rw [readDefault, ofKeyword?_of_ne_nil (List.append_ne_nil_of_left_ne_nil hgap.ne_nil _),
      pathFromNode?_eq_none_iff.2 hnode, hcurrent]
    rfl
  | @pathSign blanks pattern hblanks hpattern =>
    have hnode : pathFromNode? ('>' :: (blanks ++ pattern)) = none :=
      pathFromNode?_eq_none_iff.2 fun _ _ h => absurd h.head_mem (by decide)
    have hcurrent : pathFromCurrent? ('>' :: (blanks ++ pattern)) = some pattern :=
      (pathFromCurrent?_sign _).trans (pattern?_eq_some.2 ⟨blanks, rfl, hblanks, hpattern⟩)
    rw [readDefault, ofKeyword?_of_ne_nil (List.append_ne_nil_of_right_ne_nil _ hpattern.ne_nil),
      hnode, hcurrent]
    rfl

/-! ## What is read is spelled

The converse follows the order of the forms: each of them is tried on the text, and a form that is
not found leaves a fact about the text to those behind it. At the end no form is left, and the text
is refused with a reason. -/

/-- **A text that spells no command is refused.** -/
theorem spells_or_invalid (ht : t.IsTrimmed) :
    (∃ numerals command, Spells pathLetters t numerals command) ∨
      ∃ reason, readDefault t = .error (.invalidCommand t reason) := by
  -- The cases follow the order in which the forms are tried; each recogniser that fails is kept as
  -- a hypothesis, since a later form may need it and the reading unfolds along all of them.
  cases hkeyword : ofKeyword? t with
  | some command =>
    obtain ⟨letter, rfl, hmem⟩ := ofKeyword?_eq_some.1 hkeyword
    exact Or.inl ⟨_, _, .keyword hmem⟩
  | none =>
  cases hnode : pathFromNode? t with
  | some parts => exact Or.inl ⟨_, _, .pathFromNode (pathFromNode?_eq_some.1 hnode)⟩
  | none =>
  cases hcurrent : pathFromCurrent? t with
  | some pattern =>
    cases t with
    | nil => cases hcurrent
    | cons c t =>
      by_cases hsign : c = '>'
      · subst hsign
        rw [pathFromCurrent?_sign] at hcurrent
        obtain ⟨blanks, rfl, hblanks, hpattern⟩ := pattern?_eq_some.1 hcurrent
        exact Or.inl ⟨_, _, .pathSign hblanks hpattern⟩
      · obtain ⟨hletter, gap, rfl, hgap, hpattern⟩ := (pathFromCurrent?_eq_some hsign).1 hcurrent
        exact Or.inl
          ⟨_, _, .pathFromCurrent hletter hgap hpattern (pathFromNode?_eq_none_iff.1 hnode)⟩
  | none =>
  cases hoperation : operation? t with
  | some parts =>
    obtain ⟨operator, argument⟩ := parts
    by_cases hdigits : argument.isNumeral = true
    · obtain ⟨hoperator, blanks, rfl, hblanks⟩ := eq_of_operation? ht hoperation
      obtain ⟨command, hmem, -⟩ := exists_mem_operators hoperator
      exact Or.inl ⟨_, _, .operation hmem hblanks hdigits⟩
    · refine Or.inr ?_
      simp only [readDefault, hkeyword, hnode, hcurrent, hoperation, readOperation, hdigits,
        Bool.false_eq_true, if_false]
      split
      · exact ⟨_, rfl⟩
      · exact ⟨_, rfl⟩
  | none =>
  by_cases hdigits : t.isNumeral = true
  · exact Or.inl ⟨_, _, .node hdigits⟩
  · cases hends : linkEnds? t with
    | some ends => exact Or.inl ⟨_, _, .link (linkEnds?_eq_some.1 hends)⟩
    | none =>
      refine Or.inr ⟨(CommandFault.unknown t).reason, ?_⟩
      simp only [readDefault, hkeyword, hnode, hcurrent, hoperation, hdigits, hends,
        Bool.false_eq_true, if_false]

theorem Spells.ne_nil {letters : List Char} {numerals : List Text} {command : Command}
    (h : Spells letters t numerals command) : t ≠ [] := by
  cases h with
  | keyword => exact List.cons_ne_nil _ _
  | operation => exact List.cons_ne_nil _ _
  | node hdigits => exact (isNumeral_iff.1 hdigits).1
  | link hlink =>
    obtain ⟨c, rest, rfl, -, -⟩ := hlink.exists_cons
    exact List.cons_ne_nil _ _
  | pathFromNode hnode =>
    cases hnode
    exact List.cons_ne_nil _ _
  | pathFromCurrent => exact List.cons_ne_nil _ _
  | pathSign => exact List.cons_ne_nil _ _

variable {text : Text} {numerals : List Text} {command : Command}

theorem read_of_spells (h : Spells pathLetters text.trim numerals command) :
    read text false = guarded numerals command := by
  rw [read, if_neg h.ne_nil]
  exact readDefault_of_spells h

/-- Only a line that spells no command is refused as invalid. -/
theorem read_invalid_iff :
    (∃ t reason, read text false = .error (.invalidCommand t reason)) ↔
      ¬ ∃ numerals command, Spells pathLetters text.trim numerals command := by
  constructor
  · rintro ⟨t, reason, h⟩ ⟨numerals, command, hspells⟩
    rw [read_of_spells hspells, guarded] at h
    split at h <;> cases h
  · intro h
    rw [read]
    split
    · exact ⟨_, _, rfl⟩
    · obtain ⟨reason, hreason⟩ := (spells_or_invalid (Text.isTrimmed_trim text)).resolve_left h
      exact ⟨_, reason, hreason⟩

/-- What is read is what is spelled with short numerals. -/
theorem read_eq_ok_iff :
    read text false = .ok command ↔
      ∃ numerals, Spells pathLetters text.trim numerals command ∧
        ∀ digits ∈ numerals, digits.length ≤ maxDigits := by
  constructor
  · intro h
    by_cases hspells : ∃ numerals command, Spells pathLetters text.trim numerals command
    · obtain ⟨numerals, command', hspells⟩ := hspells
      obtain ⟨rfl, hshort⟩ := guarded_eq_ok.1 ((read_of_spells hspells).symm.trans h)
      exact ⟨numerals, hspells, hshort⟩
    · obtain ⟨t, reason, hinvalid⟩ := read_invalid_iff.2 hspells
      rw [h] at hinvalid
      cases hinvalid
  · rintro ⟨numerals, hspells, hshort⟩
    rw [read_of_spells hspells]
    exact guarded_eq_ok.2 ⟨rfl, hshort⟩

end Command

end GrammarTree
