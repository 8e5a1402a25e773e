import GrammarTree.Proofs.Command.Modes
import GrammarTree.Proofs.Command.Spelling
import GrammarTree.Proofs.Text.Numeral

/-!
# The command language

The same line means different things during a selection and outside of one. Outside, it has to be
spelled like a command, and is refused if it is not. During a selection a numeral is a position, a
few words and signs have a meaning of their own, and all other lines are patterns, so that hardly
anything is refused. This file says for both modes which lines are read as which commands, and goes
back the other way: every command outside a selection has a line that means it.

The way back needs care in one place. A path from the current node can be written with a letter or
with a sign, but behind the letter a pattern like `1 x` would be read as a path from node 1. The
text of such a command is therefore written with the sign, which nothing else starts with.

Two kinds of texts are not read although they are spelled. A line is trimmed first, so a pattern
with blanks at its ends is not what it seems; and a numeral with more than 4300 digits is refused
with an error of its own. Both are conditions of the statements: `Command.Writable` for the commands
that are written, and a bound on the numerals for the lines that are read.

What is here:

* `Command.Picks`, the texts of commands during a selection, and `Command.read_selecting_eq_ok_iff`,
  which says that such a line is read as what it picks;
* `Command.written`, a text for every command outside a selection, and `Command.read_written`;
* `Command.read_iff_spells`, the language of both modes in one statement, with a path that starts
  with a letter other than both cases of `s`.
-/

set_option autoImplicit false

namespace GrammarTree

namespace Command

variable {t text : Text} {c : Char} {numerals : List Text} {command : Command}

/-! ## Selections

During a selection the forms exclude each other by their first question: whether the line is a
numeral. A word has a letter at its start, so no word is one, and what is neither a numeral nor one
of the words is a pattern. -/

/-- The texts of commands during a selection, with the numerals in them. -/
inductive Picks : Text → List Text → Command → Prop where
  /-- A positive number is the position of an alternative. -/
  | position {t : Text} (hdigits : t.isNumeral = true) (hpos : 1 ≤ t.readNumeral) :
    Picks t [t] (.choose (some t.readNumeral))
  /-- Zero ends the selection. -/
  | zero {t : Text} (hdigits : t.isNumeral = true) (hzero : t.readNumeral = 0) :
    Picks t [t] .endSelection
  /-- The first alternative. -/
  | first {t : Text} (h : t.map Char.toLower = "first".toList) : Picks t [] (.choose (some 1))
  /-- The last alternative. -/
  | last {t : Text} (h : t.map Char.toLower = "last".toList) : Picks t [] (.choose none)
  /-- A minus sign ends the selection. -/
  | minus (rest : Text) : Picks ('-' :: rest) [] .endSelection
  /-- Everything else is a pattern. -/
  | pattern {t : Text} (hdigits : t.isNumeral = false)
    (hfirst : t.map Char.toLower ≠ "first".toList)
    (hlast : t.map Char.toLower ≠ "last".toList) (hminus : t.head? ≠ some '-') :
    Picks t [] (.chooseMatching t)

theorem exists_picks (t : Text) : ∃ numerals command, Picks t numerals command := by
  by_cases hdigits : t.isNumeral = true
  · rcases Nat.eq_zero_or_pos t.readNumeral with hzero | hpos
    · exact ⟨_, _, .zero hdigits hzero⟩
    · exact ⟨_, _, .position hdigits hpos⟩
  by_cases hfirst : t.map Char.toLower = "first".toList
  · exact ⟨_, _, .first hfirst⟩
  by_cases hlast : t.map Char.toLower = "last".toList
  · exact ⟨_, _, .last hlast⟩
  by_cases hminus : t.head? = some '-'
  · obtain ⟨rest, rfl⟩ := List.head?_eq_some_iff.1 hminus
    exact ⟨_, _, .minus rest⟩
  · exact ⟨_, _, .pattern (Bool.eq_false_iff.2 hdigits) hfirst hlast hminus⟩

/-- A word is no numeral, whatever the cases of its letters are. -/
theorem not_isNumeral_of_map_toLower {small : Char} {word : Text} (capital : Char)
    (hcase : capital.toNat + 32 = small.toNat)
    (hdigit : isDigit small = false ∧ isDigit capital = false)
    (h : t.map Char.toLower = small :: word) : ¬ t.isNumeral = true := by
  intro hnumeral
  cases t with
  | nil => cases h
  | cons c t =>
    have hc := (isNumeral_iff.1 hnumeral).2 c (List.mem_cons_self ..)
    rcases eq_or_eq_of_toLower_eq capital hcase (List.cons.inj h).1 with rfl | rfl
    · rw [hdigit.1] at hc
      cases hc
    · rw [hdigit.2] at hc
      cases hc

theorem readSelection_of_isNumeral (h : t.isNumeral = true) :
    readSelection t =
      guarded [t] (if t.readNumeral < 1 then .endSelection else .choose (some t.readNumeral)) := by
  rw [readSelection, if_pos h]
  exact readNumber_bind_eq_guarded t fun number =>
    if number < 1 then .endSelection else .choose (some number)

theorem readSelection_of_picks (h : Picks t numerals command) :
    readSelection t = guarded numerals command := by
  cases h with
  | position hdigits hpos =>
    rw [readSelection_of_isNumeral hdigits, if_neg (Nat.not_lt_of_le hpos)]
  | zero hdigits hzero =>
    rw [readSelection_of_isNumeral hdigits, if_pos (by omega)]
  | first h =>
    have hnumeral := not_isNumeral_of_map_toLower 'F' rfl (by decide) h
    rw [readSelection, if_neg hnumeral, if_pos h]
    rfl
  | last h =>
    have hnumeral := not_isNumeral_of_map_toLower 'L' rfl (by decide) h
    have hfirst : t.map Char.toLower ≠ "first".toList := by
      rw [h]
      decide
    rw [readSelection, if_neg hnumeral, if_neg hfirst, if_pos h]
    rfl
  | minus rest =>
    have hnumeral : ¬ Text.isNumeral ('-' :: rest) = true := fun h =>
      Bool.false_ne_true ((isNumeral_iff.1 h).2 '-' (List.mem_cons_self ..))
    have hfirst : ('-' :: rest).map Char.toLower ≠ "first".toList := fun h =>
      absurd (List.cons.inj h).1 (by decide)
    have hlast : ('-' :: rest).map Char.toLower ≠ "last".toList := fun h =>
      absurd (List.cons.inj h).1 (by decide)
    rw [readSelection, if_neg hnumeral, if_neg hfirst, if_neg hlast]
    rfl
  | pattern hdigits hfirst hlast hminus =>
    rw [readSelection, if_neg (Bool.eq_false_iff.1 hdigits), if_neg hfirst, if_neg hlast,
      if_neg hminus]
    rfl

/-- During a selection, a line that is not blank is read as what it picks. -/
theorem read_selecting_eq_ok_iff (hblank : text.trim ≠ []) :
    read text true = .ok command ↔
      ∃ numerals, Picks text.trim numerals command ∧
        ∀ digits ∈ numerals, digits.length ≤ maxDigits := by
  have hread : read text true = readSelection text.trim := if_neg hblank
  rw [hread]
  constructor
  · intro h
    obtain ⟨numerals, command', hpicks⟩ := exists_picks text.trim
    obtain ⟨rfl, hshort⟩ := guarded_eq_ok.1 ((readSelection_of_picks hpicks).symm.trans h)
    exact ⟨numerals, hpicks, hshort⟩
  · rintro ⟨numerals, hpicks, hshort⟩
    rw [readSelection_of_picks hpicks]
    exact guarded_eq_ok.2 ⟨rfl, hshort⟩

theorem Picks.length_le (h : Picks t numerals command)
    (hshort : t.isNumeral = true → t.length ≤ maxDigits) :
    ∀ digits ∈ numerals, digits.length ≤ maxDigits := by
  cases h with
  | position hdigits => exact List.forall_mem_singleton.2 (hshort hdigits)
  | zero hdigits => exact List.forall_mem_singleton.2 (hshort hdigits)
  | first => exact fun _ h => absurd h List.not_mem_nil
  | last => exact fun _ h => absurd h List.not_mem_nil
  | minus => exact fun _ h => absurd h List.not_mem_nil
  | pattern => exact fun _ h => absurd h List.not_mem_nil

/-- During a selection, every line that is not blank is read. -/
theorem exists_read_selecting (hblank : text.trim ≠ [])
    (hshort : text.trim.isNumeral = true → text.trim.length ≤ maxDigits) :
    ∃ command, read text true = .ok command := by
  obtain ⟨numerals, command, hpicks⟩ := exists_picks text.trim
  exact ⟨command, (read_selecting_eq_ok_iff hblank).2 ⟨numerals, hpicks, hpicks.length_le hshort⟩⟩

/-! ## A text for every command -/

/-- The numbers in a command. -/
def numbers : Command → List Nat
  | .newRoot n => [n]
  | .unlink n => [n]
  | .makeCurrent n => [n]
  | .delete n => [n]
  | .beginSelection node => node.toList
  | .link parent child => [parent, child]
  | .growPath _ node => node.toList
  | .choose position => position.toList
  | _ => []

/-- A text for a command outside a selection. A path from the current node has its sign, since a
letter with a pattern like `1 x` starts a path from node 1. -/
def written : Command → Text
  | .draw .ids => ['r']
  | .draw .plain => ['o']
  | .draw .full => ['f']
  | .newRoot n => '+' :: Text.ofNat n
  | .unlink n => '~' :: Text.ofNat n
  | .makeCurrent n => '=' :: Text.ofNat n
  | .delete n => '-' :: Text.ofNat n
  | .refill => ['*']
  | .skip => ['n']
  | .beginSelection none => ['.']
  | .beginSelection (some n) => Text.ofNat n
  | .link parent child => Text.ofNat parent ++ ' ' :: Text.ofNat child
  | .growPath pattern none => '>' :: pattern
  | .growPath pattern (some n) => 's' :: ' ' :: (Text.ofNat n ++ ' ' :: pattern)
  | _ => []

/-- Whether a command can be written: its pattern is a non-empty trimmed line, and its numerals are
not too long. -/
structure Writable (command : Command) : Prop where
  /-- A pattern is not empty, trimmed and on one line. -/
  pattern : ∀ pattern node, command = .growPath pattern node →
    pattern ≠ [] ∧ pattern.IsTrimmed ∧ '\n' ∉ pattern
  /-- No numeral is too long. -/
  numbers : ∀ n ∈ command.numbers, (Text.ofNat n).length ≤ maxDigits

theorem isNumeral_ofNat (n : Nat) : (Text.ofNat n).isNumeral = true := by
  refine isNumeral_iff.2 ⟨Text.ofNat_ne_nil n, fun c hc => ?_⟩
  rw [isDigit, digitValue?_of_isDigit (Text.mem_ofNat hc)]
  rfl

theorem isGap_blank : IsGap [' '] := ⟨List.cons_ne_nil _ _, rfl⟩

/-- An operator with the numeral of a number. -/
theorem spells_operator {letters : List Char} {operator : Char} {command : Nat → Command}
    (hmem : (operator, command) ∈ operators) (n : Nat) :
    Spells letters (operator :: Text.ofNat n) [Text.ofNat n] (command n) := by
  have h : Spells letters (operator :: ([] ++ Text.ofNat n)) [Text.ofNat n]
      (command (Text.ofNat n).readNumeral) := .operation hmem rfl (isNumeral_ofNat n)
  rwa [List.nil_append, Text.readNumeral_ofNat] at h

theorem spells_written (hidle : command.isIdle = true) (h : command.Writable) :
    Spells pathLetters command.written (command.numbers.map Text.ofNat) command := by
  cases command with
  | draw mode => cases mode <;> exact .keyword (by simp [keywords])
  | newRoot n => exact spells_operator (by simp [operators]) n
  | unlink n => exact spells_operator (by simp [operators]) n
  | makeCurrent n => exact spells_operator (by simp [operators]) n
  | delete n => exact spells_operator (by simp [operators]) n
  | refill => exact .keyword (by simp [keywords])
  | skip => exact .keyword (by simp [keywords])
  | beginSelection node =>
    cases node with
    | none => exact .keyword (by simp [keywords])
    | some n =>
      have hnode : Spells pathLetters (Text.ofNat n) [Text.ofNat n]
          (.beginSelection (some (Text.ofNat n).readNumeral)) := .node (isNumeral_ofNat n)
      rwa [Text.readNumeral_ofNat] at hnode
  | link parent child =>
    have hlink : IsLink (Text.ofNat parent ++ ([' '] ++ Text.ofNat child)) (Text.ofNat parent)
        (Text.ofNat child) := .apart (isNumeral_ofNat parent) isGap_blank (isNumeral_ofNat child)
    have hspells : Spells pathLetters _ _ _ := .link hlink
    rwa [Text.readNumeral_ofNat, Text.readNumeral_ofNat] at hspells
  | growPath pattern node =>
    obtain ⟨hne, htrimmed, hline⟩ := h.pattern pattern node rfl
    have hpattern : IsPattern pattern := ⟨hne, startsBlank_eq_false.2 htrimmed.head, hline⟩
    cases node with
    | none =>
      have hsign : Spells pathLetters ('>' :: ([] ++ pattern)) [] (.growPath pattern none) :=
        .pathSign rfl hpattern
      exact hsign
    | some n =>
      have hnode : IsPathFromNode pathLetters
          ('s' :: ([' '] ++ (Text.ofNat n ++ ([' '] ++ pattern)))) (Text.ofNat n) pattern :=
        .intro (by decide) isGap_blank (isNumeral_ofNat n) isGap_blank hpattern
      have hspells := Spells.pathFromNode hnode
      rwa [Text.readNumeral_ofNat] at hspells
  | choose => cases hidle
  | endSelection => cases hidle
  | chooseMatching => cases hidle

theorem isTrimmed_cons_append {t : Text} (hc : isBlank c = false) (front : Text) (hne : t ≠ [])
    (ht : t.IsTrimmed) : Text.IsTrimmed (c :: (front ++ t)) := by
  refine ⟨fun d hd => ?_, fun d hd => ht.last d ?_⟩
  · cases hd
    exact hc
  · rwa [← List.cons_append, List.getLast?_append_of_ne_nil _ hne] at hd

theorem isTrimmed_singleton (hc : isBlank c = false) : Text.IsTrimmed [c] :=
  ⟨by simpa using hc, by simpa using hc⟩

theorem isTrimmed_written (hidle : command.isIdle = true) (h : command.Writable) :
    command.written.IsTrimmed := by
  have hnumeral : ∀ n, (Text.ofNat n).IsTrimmed := fun n => isTrimmed_numeral (isNumeral_ofNat n)
  have hoperator : ∀ c, isBlank c = false → ∀ n, Text.IsTrimmed (c :: Text.ofNat n) :=
    fun c hc n => isTrimmed_cons_append hc [] (Text.ofNat_ne_nil n) (hnumeral n)
  cases command with
  | draw mode => cases mode <;> exact isTrimmed_singleton rfl
  | newRoot n => exact hoperator '+' (by decide) n
  | unlink n => exact hoperator '~' (by decide) n
  | makeCurrent n => exact hoperator '=' (by decide) n
  | delete n => exact hoperator '-' (by decide) n
  | refill => exact isTrimmed_singleton rfl
  | skip => exact isTrimmed_singleton rfl
  | beginSelection node =>
    cases node with
    | none => exact isTrimmed_singleton rfl
    | some n => exact hnumeral n
  | link parent child =>
    obtain ⟨c, ds, hparent, hc⟩ := exists_cons_of_isNumeral (isNumeral_ofNat parent)
    have hwritten : (link parent child).written = c :: ((ds ++ [' ']) ++ Text.ofNat child) := by
      rw [written, hparent]
      simp
    rw [hwritten]
    exact isTrimmed_cons_append (isBlank_of_isDigit hc) _ (Text.ofNat_ne_nil child) (hnumeral child)
  | growPath pattern node =>
    obtain ⟨hne, htrimmed, -⟩ := h.pattern pattern node rfl
    cases node with
    | none => exact isTrimmed_cons_append (by decide) [] hne htrimmed
    | some n =>
      have hwritten : (growPath pattern (some n)).written =
          's' :: ((' ' :: Text.ofNat n ++ [' ']) ++ pattern) := by
        simp [written]
      rw [hwritten]
      exact isTrimmed_cons_append (by decide) _ hne htrimmed
  | choose => cases hidle
  | endSelection => cases hidle
  | chooseMatching => cases hidle

theorem read_written (hidle : command.isIdle = true) (h : command.Writable) :
    read command.written false = .ok command := by
  have htrim : command.written.trim = command.written := by
    have hpad : Text.trim ([] ++ command.written ++ []) = command.written :=
      (isTrimmed_written hidle h).trim_pad rfl rfl
    rwa [List.nil_append, List.append_nil] at hpad
  refine read_eq_ok_iff.2 ⟨command.numbers.map Text.ofNat, ?_, fun digits hdigits => ?_⟩
  · rw [htrim]
    exact spells_written hidle h
  · obtain ⟨n, hn, rfl⟩ := List.mem_map.1 hdigits
    exact h.numbers n hn

/-! ## The whole language -/

/-- **A line is read as the command that it spells.** Outside a selection a line is read exactly
when it spells a command with numerals that are not too long; it spells no other command then, and
it is refused as invalid exactly when it spells none. During a selection every line that is not
blank is read as what it picks. Every command outside a selection is read from some line. -/
theorem read_iff_spells :
    (∀ text command, read text false = .ok command ↔
      ∃ numerals, Spells pathLetters text.trim numerals command ∧
        ∀ digits ∈ numerals, digits.length ≤ maxDigits) ∧
    (∀ text, (∃ t reason, read text false = .error (.invalidCommand t reason)) ↔
      ¬ ∃ numerals command, Spells pathLetters text.trim numerals command) ∧
    (∀ text numerals numerals' command command',
      Spells pathLetters text numerals command → Spells pathLetters text numerals' command' →
      (∀ digits ∈ numerals, digits.length ≤ maxDigits) → command = command') ∧
    (∀ text command, text.trim ≠ [] → (read text true = .ok command ↔
      ∃ numerals, Picks text.trim numerals command ∧
        ∀ digits ∈ numerals, digits.length ≤ maxDigits)) ∧
    (∀ text, text.trim ≠ [] → (text.trim.isNumeral = true → text.trim.length ≤ maxDigits) →
      ∃ command, read text true = .ok command) ∧
    ∀ command : Command, command.isIdle = true → command.Writable →
      ∃ text, read text false = .ok command := by
  refine ⟨fun _ _ => read_eq_ok_iff, fun _ => read_invalid_iff, ?_, fun _ _ =>
    read_selecting_eq_ok_iff, fun _ => exists_read_selecting, fun command hidle h =>
    ⟨_, read_written hidle h⟩⟩
  intro text numerals numerals' command command' h h' hshort
  have hread : guarded numerals command = .ok command := guarded_eq_ok.2 ⟨rfl, hshort⟩
  rw [← readDefault_of_spells h, readDefault_of_spells h'] at hread
  exact (guarded_eq_ok.1 hread).1.symm

theorem read_iff_spells_of_arrow :
    read "12 -> 3".toList false = .ok (.link 12 3) ∧
      ∃ text, read text false = .ok (.growPath ['1', ' ', 'x'] none) := by
  obtain ⟨hread, -, -, -, -, hwritten⟩ := read_iff_spells
  have hlink : IsLink (['1', '2'] ++ ([' '] ++ (['-', '>'] ++ ([' '] ++ ['3']))))
      ['1', '2'] ['3'] := .joined rfl isGap_blank (by decide) isGap_blank rfl
  have htrim : Text.trim "12 -> 3".toList =
      ['1', '2'] ++ ([' '] ++ (['-', '>'] ++ ([' '] ++ ['3']))) := by decide
  refine ⟨(hread _ _).2 ⟨[['1', '2'], ['3']], ?_, by decide⟩, hwritten _ rfl ⟨?_, ?_⟩⟩
  · rw [htrim]
    exact .link hlink
  · rintro pattern node ⟨⟩
    have htrimmed : Text.IsTrimmed ('1' :: ([' '] ++ ['x'])) :=
      isTrimmed_cons_append rfl _ (List.cons_ne_nil _ _) (isTrimmed_singleton rfl)
    exact ⟨List.cons_ne_nil _ _, htrimmed, by decide⟩
  · exact fun n hn => absurd hn List.not_mem_nil

/-- A path may also start with the long s, which is neither case of `s`. -/
theorem not_forall_spells_of_read :
    ¬ ∀ text, (∃ command, read text false = .ok command) →
      ∃ numerals command, Spells ['s', 'S'] text.trim numerals command := by
  intro h
  obtain ⟨numerals, command, hspells⟩ := h ['ſ', ' ', 'x'] ⟨.growPath ['x'] none, by decide⟩
  have htrim : Text.trim ['ſ', ' ', 'x'] = ['ſ', ' ', 'x'] := by decide
  rw [htrim] at hspells
  generalize ht : (['ſ', ' ', 'x'] : Text) = t at hspells
  cases hspells with
  | keyword => cases ht
  | operation hmem =>
    obtain ⟨rfl, -⟩ := List.cons.inj ht
    exact absurd (isOperator_of_mem hmem).1 (by decide)
  | node hdigits =>
    subst ht
    exact absurd hdigits (by decide)
  | link hlink =>
    obtain ⟨c, rest, rfl, hc, -⟩ := hlink.exists_cons
    obtain ⟨rfl, -⟩ := List.cons.inj ht
    exact absurd hc (by decide)
  | pathFromNode hnode =>
    subst ht
    exact absurd hnode.head_mem (by decide)
  | pathFromCurrent hletter =>
    obtain ⟨rfl, -⟩ := List.cons.inj ht
    exact absurd hletter (by decide)
  | pathSign => exact absurd (List.cons.inj ht).1 (by decide)

end Command

end GrammarTree
