import GrammarTree.Command.Parser
import GrammarTree.Proofs.Grammar.Pieces

/-!
# The forms of commands

A command is one short line, and outside a selection it has one of a handful of forms: a keyword, an
operator with a number, a number, a link between two numbers, a path from a node, a path from the
current node. Each form has a recogniser, which looks for the ends of its parts from left to right
and takes as much as it can at each step. This file describes the forms by their parts alone,
without any search, and proves that a recogniser finds exactly the texts of its form.

The two descriptions could differ in one way: a text might be divided into parts in two ways, and
the greedy recogniser would then find one of them only. This does not happen. No blank is a digit,
and no pattern begins with a blank, so that the end of every part is forced by what follows it. The
lemmas on gaps and numerals say this once, and the equivalences for the forms are put together from
them.

Letters are compared without regard to case, and the case folding has a pitfall: the long s is
folded to an `s`. The letters that may start a path are therefore three, and they are a parameter of
the description, so that the language with the two expected letters can be stated as well.

What is here:

* `Command.IsGap` and `Command.IsPattern`, the parts that are no numerals;
* `Command.IsPathFromNode` and `Command.IsLink`, the two forms that have more than two parts;
* `Command.operators` and `Command.keywords`, the tables behind the other forms;
* `Command.ofKeyword?_eq_some`, `Command.pathFromNode?_eq_some`, `Command.pathFromCurrent?_eq_some`
  and `Command.linkEnds?_eq_some`, one equivalence for each recogniser, and the two directions for
  operators, `Command.operation?_operator` and `Command.eq_of_operation?`.

How the forms are told apart, and which of them is tried first, is not a question here: it belongs
to `Proofs.Command.Spelling`.
-/

set_option autoImplicit false

namespace GrammarTree

namespace Command

variable {t rest : Text}

/-! ## Parts

A form is cut at its blanks. Some blanks have to be there, since they set two parts off against each
other, and some may be missing. A gap is of the first kind; a run of blanks without a name is of the
second. -/

/-- Blanks that set something off: at least one. -/
structure IsGap (gap : Text) : Prop where
  /-- There is a blank. -/
  ne_nil : gap ≠ []
  /-- There is nothing else. -/
  isBlankOnly : gap.isBlankOnly = true

/-- A pattern: a non-empty rest of a line, which begins with no blank. -/
structure IsPattern (pattern : Text) : Prop where
  /-- It is not empty. -/
  ne_nil : pattern ≠ []
  /-- The blanks in front of it are not part of it. -/
  startsBlank : startsBlank pattern = false
  /-- It lies on one line. -/
  newline_notMem : '\n' ∉ pattern

theorem startsBlank_eq_false : startsBlank t = false ↔ ∀ c ∈ t.head?, isBlank c = false := by
  cases t with
  | nil => simp [startsBlank]
  | cons c t => simp [startsBlank]

theorem onOneLine_iff : onOneLine t = true ↔ '\n' ∉ t := by
  simp [onOneLine]

theorem startsBlank_trimLeft (t : Text) : startsBlank t.trimLeft = false :=
  startsBlank_eq_false.2 Text.head?_dropWhile_isBlank

theorem trimLeft_append {blanks : Text} (hblanks : blanks.isBlankOnly = true)
    (hrest : startsBlank rest = false) : Text.trimLeft (blanks ++ rest) = rest :=
  Text.dropWhile_append (Text.isBlankOnly_iff.1 hblanks) (startsBlank_eq_false.1 hrest)

theorem IsGap.startsBlank_append {gap : Text} (h : IsGap gap) (rest : Text) :
    startsBlank (gap ++ rest) = true := by
  cases gap with
  | nil => exact absurd rfl h.ne_nil
  | cons c gap => exact Text.isBlankOnly_iff.1 h.isBlankOnly c (List.mem_cons_self ..)

/-- Every text is some blanks and a rest; the blanks are a gap if the text starts with one. -/
theorem exists_eq_append_trimLeft (t : Text) :
    ∃ blanks, t = blanks ++ t.trimLeft ∧ blanks.isBlankOnly = true ∧
      (startsBlank t = true → IsGap blanks) := by
  have hblank : Text.isBlankOnly (t.takeWhile isBlank) = true := List.all_takeWhile
  refine ⟨t.takeWhile isBlank, List.takeWhile_append_dropWhile.symm, hblank, fun h => ⟨?_, hblank⟩⟩
  cases t with
  | nil => cases h
  | cons c t =>
    rw [List.takeWhile_cons_of_pos (show isBlank c = true from h)]
    exact List.cons_ne_nil _ _

/-! ## Numerals -/

theorem isNumeral_iff : t.isNumeral = true ↔ t ≠ [] ∧ ∀ c ∈ t, isDigit c = true := by
  simp [Text.isNumeral]

theorem isBlank_of_isDigit {c : Char} (h : isDigit c = true) : isBlank c = false := by
  cases hblank : isBlank c with
  | false => rfl
  | true => rw [isDigit_of_isBlank hblank] at h; cases h

theorem startsBlank_numeral_append {digits : Text} (h : digits.isNumeral = true) (rest : Text) :
    startsBlank (digits ++ rest) = false := by
  obtain ⟨hne, hdigits⟩ := isNumeral_iff.1 h
  cases digits with
  | nil => exact absurd rfl hne
  | cons c digits => exact isBlank_of_isDigit (hdigits c (List.mem_cons_self ..))

theorem startsBlank_numeral {digits : Text} (h : digits.isNumeral = true) :
    startsBlank digits = false :=
  List.append_nil digits ▸ startsBlank_numeral_append h []

theorem newline_notMem_numeral {digits : Text} (h : digits.isNumeral = true) : '\n' ∉ digits :=
  fun hfeed => Bool.false_ne_true ((isNumeral_iff.1 h).2 _ hfeed)

theorem head?_of_startsBlank (h : startsBlank t = true) : ∀ c ∈ t.head?, isDigit c = false := by
  intro c hc
  cases t with
  | nil => cases h
  | cons d t =>
    cases hc
    exact isDigit_of_isBlank h

/-- A numeral ends where a blank follows. -/
theorem digits_append {digits : Text} (h : digits.isNumeral = true)
    (hrest : startsBlank rest = true) :
    leadingDigits (digits ++ rest) = digits ∧ afterDigits (digits ++ rest) = rest :=
  ⟨Text.takeWhile_append (isNumeral_iff.1 h).2 (head?_of_startsBlank hrest),
    Text.dropWhile_append (isNumeral_iff.1 h).2 (head?_of_startsBlank hrest)⟩

theorem leadingDigits_append_afterDigits (t : Text) : leadingDigits t ++ afterDigits t = t :=
  List.takeWhile_append_dropWhile

theorem isNumeral_leadingDigits (h : leadingDigits t ≠ []) : (leadingDigits t).isNumeral = true :=
  isNumeral_iff.2 ⟨h, fun _ hc => List.all_eq_true.1 List.all_takeWhile _ hc⟩

/-! ## Patterns -/

theorem pattern?_eq_some {pattern : Text} :
    pattern? t = some pattern ↔
      ∃ blanks, t = blanks ++ pattern ∧ blanks.isBlankOnly = true ∧ IsPattern pattern := by
  constructor
  · intro h
    rw [pattern?] at h
    split at h
    · rename_i hcond
      rw [Bool.and_eq_true, decide_eq_true_eq, onOneLine_iff] at hcond
      cases h
      obtain ⟨blanks, ht, hblanks, -⟩ := exists_eq_append_trimLeft t
      exact ⟨blanks, ht, hblanks, hcond.1, startsBlank_trimLeft t, hcond.2⟩
    · cases h
  · rintro ⟨blanks, rfl, hblanks, hpattern⟩
    rw [pattern?, trimLeft_append hblanks hpattern.startsBlank, if_pos]
    rw [Bool.and_eq_true, decide_eq_true_eq, onOneLine_iff]
    exact ⟨hpattern.ne_nil, hpattern.newline_notMem⟩

/-- A pattern behind a gap. -/
theorem pattern?_of_startsBlank {pattern : Text} (h : startsBlank t = true) :
    pattern? t = some pattern ↔ ∃ gap, t = gap ++ pattern ∧ IsGap gap ∧ IsPattern pattern := by
  rw [pattern?_eq_some]
  constructor
  · rintro ⟨blanks, rfl, hblanks, hpattern⟩
    refine ⟨blanks, rfl, ⟨?_, hblanks⟩, hpattern⟩
    rintro rfl
    exact Bool.false_ne_true (hpattern.startsBlank.symm.trans h)
  · rintro ⟨gap, ht, hgap, hpattern⟩
    exact ⟨gap, ht, hgap.isBlankOnly, hpattern⟩

/-! ## Paths -/

/-- The letters of the path commands: both cases of `s`, and the long s. -/
def pathLetters : List Char := ['s', 'S', 'ſ']

theorem isPathLetter_iff {c : Char} : isPathLetter c = true ↔ c ∈ pathLetters := by
  simp [isPathLetter, pathLetters, or_assoc]

/-- The texts of a path from a given node, with the numeral of the node and the pattern. -/
inductive IsPathFromNode (letters : List Char) : Text → Text → Text → Prop where
  /-- A letter, a number and a pattern, set off from each other. -/
  | intro {letter : Char} {gap digits gap' pattern : Text} (hletter : letter ∈ letters)
    (hgap : IsGap gap) (hdigits : digits.isNumeral = true) (hgap' : IsGap gap')
    (hpattern : IsPattern pattern) :
    IsPathFromNode letters (letter :: (gap ++ (digits ++ (gap' ++ pattern)))) digits pattern

theorem pathFromNode?_eq_some {digits pattern : Text} :
    pathFromNode? t = some (digits, pattern) ↔ IsPathFromNode pathLetters t digits pattern := by
  constructor
  · intro h
    cases t with
    | nil => cases h
    | cons letter t =>
      simp only [pathFromNode?] at h
      split at h
      · rename_i hcond
        simp only [Bool.and_eq_true, decide_eq_true_eq] at hcond
        obtain ⟨⟨⟨hletter, hgap⟩, hne⟩, hgap'⟩ := hcond
        obtain ⟨pattern', hpattern, heq⟩ := Option.map_eq_some_iff.1 h
        cases heq
        obtain ⟨gap, ht, -, hblanks⟩ := exists_eq_append_trimLeft t
        obtain ⟨gap', hrest, hgap', hpattern⟩ := (pattern?_of_startsBlank hgap').1 hpattern
        have hsplit := leadingDigits_append_afterDigits (Text.trimLeft t)
        rw [hrest] at hsplit
        have hparts := IsPathFromNode.intro (isPathLetter_iff.1 hletter) (hblanks hgap)
          (isNumeral_leadingDigits hne) hgap' hpattern
        rwa [hsplit, ← ht] at hparts
      · cases h
  · rintro ⟨hletter, hgap, hdigits, hgap', hpattern⟩
    rename_i letter gap gap'
    obtain ⟨hleading, hafter⟩ := digits_append hdigits (hgap'.startsBlank_append pattern)
    have htrim := trimLeft_append hgap.isBlankOnly
      (startsBlank_numeral_append hdigits (gap' ++ pattern))
    have hfound : pattern? (gap' ++ pattern) = some pattern :=
      pattern?_eq_some.2 ⟨gap', rfl, hgap'.isBlankOnly, hpattern⟩
    simp only [pathFromNode?, htrim, hleading, hafter, hfound, Option.map_some]
    rw [if_pos]
    simp only [Bool.and_eq_true, decide_eq_true_eq]
    exact ⟨⟨⟨isPathLetter_iff.2 hletter, hgap.startsBlank_append _⟩, (isNumeral_iff.1 hdigits).1⟩,
      hgap'.startsBlank_append _⟩

theorem pathFromCurrent?_sign (t : Text) : pathFromCurrent? ('>' :: t) = pattern? t := rfl

theorem pathFromCurrent?_eq_some {letter : Char} {pattern : Text} (hletter : letter ≠ '>') :
    pathFromCurrent? (letter :: t) = some pattern ↔
      letter ∈ pathLetters ∧ ∃ gap, t = gap ++ pattern ∧ IsGap gap ∧ IsPattern pattern := by
  rw [pathFromCurrent?, decide_eq_false hletter, Bool.false_or]
  split
  · rename_i hcond
    rw [Bool.and_eq_true] at hcond
    rw [pattern?_of_startsBlank hcond.2]
    exact (and_iff_right (isPathLetter_iff.1 hcond.1)).symm
  · rename_i hcond
    refine iff_of_false (Option.some_ne_none pattern).symm ?_
    rintro ⟨hmem, gap, rfl, hgap, -⟩
    refine hcond ?_
    rw [Bool.and_eq_true]
    exact ⟨isPathLetter_iff.2 hmem, hgap.startsBlank_append pattern⟩

/-! ## Operators -/

/-- The operators with the commands that they make of a number. -/
def operators : List (Char × (Nat → Command)) :=
  [('+', .newRoot), ('~', .unlink), ('=', .makeCurrent), ('-', .delete)]

theorem exists_mem_operators {operator : Char} (h : isOperator operator = true) :
    ∃ command, (operator, command) ∈ operators ∧
      ∀ number, ofOperator operator number = command number := by
  simp only [isOperator, Bool.or_eq_true, decide_eq_true_eq] at h
  rcases h with ((rfl | rfl) | rfl) | rfl
  · exact ⟨.newRoot, by simp [operators], fun _ => rfl⟩
  · exact ⟨.unlink, by simp [operators], fun _ => rfl⟩
  · exact ⟨.makeCurrent, by simp [operators], fun _ => rfl⟩
  · exact ⟨.delete, by simp [operators], fun _ => rfl⟩

theorem isOperator_of_mem {operator : Char} {command : Nat → Command}
    (h : (operator, command) ∈ operators) :
    isOperator operator = true ∧ ∀ number, ofOperator operator number = command number := by
  simp only [operators, List.mem_cons, Prod.mk.injEq, List.not_mem_nil, or_false] at h
  rcases h with ⟨rfl, rfl⟩ | ⟨rfl, rfl⟩ | ⟨rfl, rfl⟩ | ⟨rfl, rfl⟩ <;>
    exact ⟨by decide, fun _ => rfl⟩

theorem isTrimmed_numeral {digits : Text} (h : digits.isNumeral = true) : digits.IsTrimmed :=
  ⟨fun _ hc => isBlank_of_isDigit ((isNumeral_iff.1 h).2 _ (List.mem_of_head? hc)),
    fun _ hc => isBlank_of_isDigit ((isNumeral_iff.1 h).2 _ (List.mem_of_getLast? hc))⟩

theorem operation?_operator {operator : Char} {blanks digits : Text}
    (hoperator : isOperator operator = true) (hblanks : blanks.isBlankOnly = true)
    (hdigits : digits.isNumeral = true) :
    operation? (operator :: (blanks ++ digits)) = some (operator, digits) := by
  have hline : onOneLine digits = true := onOneLine_iff.2 (newline_notMem_numeral hdigits)
  have htrim : Text.trim (blanks ++ digits) = digits := by
    have hpad : Text.trim (blanks ++ digits ++ []) = digits :=
      (isTrimmed_numeral hdigits).trim_pad hblanks rfl
    rwa [List.append_nil] at hpad
  rw [operation?, trimLeft_append hblanks (startsBlank_numeral hdigits), hoperator, hline, htrim]
  rfl

/-- The argument of an operator is the rest of the command. -/
theorem eq_of_operation? {operator : Char} {argument : Text} (ht : t.IsTrimmed)
    (h : operation? t = some (operator, argument)) :
    isOperator operator = true ∧ ∃ blanks : Text, t = operator :: (blanks ++ argument) ∧
      blanks.isBlankOnly = true := by
  cases t with
  | nil => cases h
  | cons c t =>
    rw [operation?] at h
    split at h
    · rename_i hcond
      rw [Bool.and_eq_true] at hcond
      cases h
      obtain ⟨blanks, hsplit, hblanks, -⟩ := exists_eq_append_trimLeft t
      refine ⟨hcond.1, blanks, congrArg _ ?_, hblanks⟩
      rw [Text.trim, Text.trimRight_eq_self]
      · exact hsplit
      · -- The last character of the rest is the last character of the command.
        intro d hd
        refine ht.last d ?_
        rw [hsplit, Option.mem_def, ← List.cons_append, List.getLast?_append, hd]
        rfl
    · cases h

/-! ## Links

Between the numbers of a link there may be a connector with blanks on both sides. A connector
without a blank behind it is not skipped, and the text is no link then. What remains behind the gap
or the connector has to be a numeral, which starts with neither a blank nor a connector, so there is
only one way to come to it. -/

/-- What may stand between the numbers of a link. -/
def connectors : List Text := [['-', '-'], ['-', '>']]

/-- The texts of a link, with the numerals of the parent and the child. -/
inductive IsLink : Text → Text → Text → Prop where
  /-- Two numbers with a gap between them. -/
  | apart {parent gap child : Text} (hparent : parent.isNumeral = true) (hgap : IsGap gap)
    (hchild : child.isNumeral = true) : IsLink (parent ++ (gap ++ child)) parent child
  /-- Two numbers with a connector between them, which is set off from both. -/
  | joined {parent gap connector gap' child : Text} (hparent : parent.isNumeral = true)
    (hgap : IsGap gap) (hconnector : connector ∈ connectors) (hgap' : IsGap gap')
    (hchild : child.isNumeral = true) :
    IsLink (parent ++ (gap ++ (connector ++ (gap' ++ child)))) parent child

theorem skipConnector_numeral {child : Text} (h : child.isNumeral = true) :
    skipConnector child = child := by
  have hminus : '-' ∉ child := fun hmem => Bool.false_ne_true ((isNumeral_iff.1 h).2 _ hmem)
  unfold skipConnector
  split
  · exact absurd (List.mem_cons_self ..) hminus
  · exact absurd (List.mem_cons_self ..) hminus
  · rfl

theorem startsBlank_connector_append {connector : Text} (h : connector ∈ connectors) (rest : Text) :
    startsBlank (connector ++ rest) = false := by
  simp only [connectors, List.mem_cons, List.not_mem_nil, or_false] at h
  rcases h with rfl | rfl <;> rfl

theorem skipConnector_connector {connector gap child : Text} (hconnector : connector ∈ connectors)
    (hgap : IsGap gap) (hchild : child.isNumeral = true) :
    skipConnector (connector ++ (gap ++ child)) = child := by
  have hblank := hgap.startsBlank_append child
  have hstart := startsBlank_numeral hchild
  simp only [connectors, List.mem_cons, List.not_mem_nil, or_false] at hconnector
  rcases hconnector with rfl | rfl
  · exact (if_pos hblank).trans (trimLeft_append hgap.isBlankOnly hstart)
  · exact (if_pos hblank).trans (trimLeft_append hgap.isBlankOnly hstart)

theorem skipConnector_cases (t : Text) :
    skipConnector t = t ∨ ∃ connector ∈ connectors, ∃ gap,
      t = connector ++ (gap ++ skipConnector t) ∧ IsGap gap := by
  have hskip : ∀ connector ∈ connectors, ∀ {t : Text}, startsBlank t = true →
      ∃ connector' ∈ connectors, ∃ gap,
        connector ++ t = connector' ++ (gap ++ t.trimLeft) ∧ IsGap gap := by
    intro connector hconnector t hblank
    obtain ⟨gap, ht, -, hgap⟩ := exists_eq_append_trimLeft t
    exact ⟨connector, hconnector, gap, congrArg _ ht, hgap hblank⟩
  unfold skipConnector
  split
  · split
    · exact Or.inr (hskip ['-', '-'] (by decide) ‹_›)
    · exact Or.inl rfl
  · split
    · exact Or.inr (hskip ['-', '>'] (by decide) ‹_›)
    · exact Or.inl rfl
  · exact Or.inl rfl

/-- A link is found from the parts behind its first gap. -/
theorem linkEnds?_append {parent gap : Text} (hparent : parent.isNumeral = true) (hgap : IsGap gap)
    (hrest : startsBlank rest = false) (hchild : (skipConnector rest).isNumeral = true) :
    linkEnds? (parent ++ (gap ++ rest)) = some (parent, skipConnector rest) := by
  have hblank := hgap.startsBlank_append rest
  obtain ⟨hleading, hafter⟩ := digits_append hparent hblank
  simp only [linkEnds?, hleading, hafter, trimLeft_append hgap.isBlankOnly hrest]
  rw [if_pos]
  simp only [Bool.and_eq_true, decide_eq_true_eq]
  exact ⟨⟨(isNumeral_iff.1 hparent).1, hblank⟩, hchild⟩

theorem linkEnds?_eq_some {parent child : Text} :
    linkEnds? t = some (parent, child) ↔ IsLink t parent child := by
  constructor
  · intro h
    rw [linkEnds?] at h
    split at h
    · rename_i hcond
      simp only [Bool.and_eq_true, decide_eq_true_eq] at hcond
      obtain ⟨⟨hne, hblank⟩, hchild⟩ := hcond
      cases h
      have hparent := isNumeral_leadingDigits hne
      have hsplit := leadingDigits_append_afterDigits t
      obtain ⟨gap, hrest, -, hgap⟩ := exists_eq_append_trimLeft (afterDigits t)
      rcases skipConnector_cases (afterDigits t).trimLeft with hplain | hjoined
      · rw [hplain] at hchild ⊢
        have hparts := IsLink.apart hparent (hgap hblank) hchild
        rwa [← hrest, hsplit] at hparts
      · obtain ⟨connector, hconnector, gap', heq, hgap'⟩ := hjoined
        have hparts := IsLink.joined hparent (hgap hblank) hconnector hgap' hchild
        rwa [← heq, ← hrest, hsplit] at hparts
    · cases h
  · intro h
    cases h with
    | apart hparent hgap hchild =>
      have hskip := skipConnector_numeral hchild
      have hstart := startsBlank_numeral hchild
      rw [linkEnds?_append hparent hgap hstart (by rwa [hskip]), hskip]
    | joined hparent hgap hconnector hgap' hchild =>
      have hskip := skipConnector_connector hconnector hgap' hchild
      have hstart := startsBlank_connector_append hconnector
      rw [linkEnds?_append hparent hgap (hstart _) (by rwa [hskip]), hskip]

/-! ## Keywords

A keyword is one character, and a letter counts in both cases. The lower case of a character is
computed by adding 32 to the capitals, so that the question which characters have a given lower case
is one of arithmetic. -/

/-- The keywords with their commands. -/
def keywords : List (Char × Command) :=
  [('r', .draw .ids), ('R', .draw .ids), ('o', .draw .plain), ('O', .draw .plain),
    ('f', .draw .full), ('F', .draw .full), ('n', .skip), ('N', .skip), ('*', .refill),
    ('.', .beginSelection none)]

theorem eq_or_of_toLower_eq {c d : Char} (h : c.toLower = d) :
    c = d ∨ 'A'.toNat ≤ c.toNat ∧ c.toNat + 32 = d.toNat := by
  unfold Char.toLower at h
  split at h
  · rename_i hrange
    have hlow : 'A'.toNat ≤ c.toNat := UInt32.le_iff_toNat_le.1 hrange.1
    have hhigh : c.toNat ≤ 'Z'.toNat := UInt32.le_iff_toNat_le.1 hrange.2
    have hsum : (c.val + ('a'.val - 'A'.val)).toNat = (c.toNat + 32) % 2 ^ 32 :=
      UInt32.toNat_add _ _
    refine Or.inr ⟨hlow, ?_⟩
    rw [← h]
    change _ = (c.val + ('a'.val - 'A'.val)).toNat
    rw [hsum]
    have : 'Z'.toNat = 90 := rfl
    omega
  · exact Or.inl h

/-- A small letter is the lower case of two letters. -/
theorem eq_or_eq_of_toLower_eq {c small : Char} (capital : Char)
    (hcase : capital.toNat + 32 = small.toNat)
    (h : c.toLower = small) : c = small ∨ c = capital := by
  refine (eq_or_of_toLower_eq h).imp_right fun ⟨_, hsum⟩ => Char.toNat_inj.1 ?_
  omega

/-- A sign is the lower case of itself only. -/
theorem eq_of_toLower_eq {c sign : Char} (hsign : sign.toNat < 'A'.toNat) (h : c.toLower = sign) :
    c = sign := by
  refine (eq_or_of_toLower_eq h).resolve_right fun ⟨hlow, hsum⟩ => ?_
  omega

theorem ofKeyword?_eq_some {command : Command} :
    ofKeyword? t = some command ↔ ∃ letter, t = [letter] ∧ (letter, command) ∈ keywords := by
  constructor
  · intro h
    unfold ofKeyword? at h
    split at h
    case h_7 => cases h
    all_goals
      rename_i hlower
      obtain ⟨letter, rfl, hletter⟩ := List.map_eq_singleton_iff.1 hlower
      cases h
      refine ⟨letter, rfl, ?_⟩
    · rcases eq_or_eq_of_toLower_eq 'R' rfl hletter with rfl | rfl <;> simp [keywords]
    · rcases eq_or_eq_of_toLower_eq 'O' rfl hletter with rfl | rfl <;> simp [keywords]
    · rcases eq_or_eq_of_toLower_eq 'F' rfl hletter with rfl | rfl <;> simp [keywords]
    · obtain rfl := eq_of_toLower_eq (by decide) hletter
      simp [keywords]
    · rcases eq_or_eq_of_toLower_eq 'N' rfl hletter with rfl | rfl <;> simp [keywords]
    · obtain rfl := eq_of_toLower_eq (by decide) hletter
      simp [keywords]
  · rintro ⟨letter, rfl, hmem⟩
    simp only [keywords, List.mem_cons, Prod.mk.injEq, List.not_mem_nil, or_false] at hmem
    rcases hmem with ⟨rfl, rfl⟩ | ⟨rfl, rfl⟩ | ⟨rfl, rfl⟩ | ⟨rfl, rfl⟩ | ⟨rfl, rfl⟩ | ⟨rfl, rfl⟩ |
      ⟨rfl, rfl⟩ | ⟨rfl, rfl⟩ | ⟨rfl, rfl⟩ | ⟨rfl, rfl⟩ <;> rfl

end Command

end GrammarTree
