import GrammarTree.Proofs.Command.Language
import GrammarTree.Proofs.Grammar.Merged
import GrammarTree.Proofs.Grammar.Numbering
import GrammarTree.Proofs.Session.Script

/-!
# A path from a new root

A path from a new root can be grown in two ways: by the job that is made for it, which finds the
rule of the root by its symbol and creates the node itself, and by a script of two lines, which
finds the rule by its number and goes through the command language. This file proves that both come
to the same session with the same root, and so to the same drawing.

The two meet in the session that has the root and nothing else. From there on the job and the second
line grow the same path. What is left is on the side of the script: its text has these two lines,
the first is read as a number of a rule, the second as a path from node 0 with the pattern as it is.
This needs a pattern that can stand at the end of a line, and a number whose numeral is not too
long.

What is here:

* `Session.startAt`, the session with the root, with `Session.newRoot_start` and
  `Session.growRootPath_start`, the two ways to it;
* `Program.rootPathLines`, the lines of the script, and what becomes of them when the path can be
  grown (`Program.runScript_of_grown`) and when it cannot (`Program.runScript_of_not_grown`);
* `Program.growPath_agrees_with_script`, for every grammar, root and pattern.

Which words of a command line make a job of this kind is the subject of
`Proofs.CommandLine.RootPath`.
-/

set_option autoImplicit false

namespace GrammarTree

/-! ## The session with the root -/

namespace Session

variable {s s' : Session} {grammar root pattern : Text} {node : NodeId} {e : Error}

/-- A new session with one root node, which is the current one. -/
def startAt (grammar root : Text) : Session :=
  { start grammar with derivation := Derivation.empty.growAt none root, agenda := ⟨[0]⟩ }

theorem isForest_startAt (grammar root : Text) : (startAt grammar root).derivation.IsForest :=
  Derivation.isForest_empty.growAt (fun p hp => absurd hp (Option.not_mem_none p)) root

/-- A numbered rule gives a root with its symbol. -/
theorem newRoot_start {number : Int} {rule : Rule}
    (h : Grammar.ruleNumbered? (Grammar.rules grammar) number = some rule) :
    newRoot number (start grammar) = .ok 0 (startAt grammar rule.symbol) := by
  have hrule : Grammar.ruleNumbered? (start grammar).rules number = some rule := h
  rw [newRoot, Edit.get_bind_apply, hrule]
  rfl

/-- A path from a new root is grown in the session with the root, if there is a rule for it. -/
theorem growRootPath_start {merged : Rule}
    (h : Grammar.merged? (Grammar.rules grammar) root = some merged) (pattern : Text) :
    growRootPath root pattern (start grammar) =
      growPath (some 0) pattern (startAt grammar root) := by
  have hmerged : Grammar.merged? (start grammar).rules root = some merged := h
  rw [growRootPath, Edit.bind_apply, lookUpRule_eq, hmerged]
  rfl

theorem chainFrom_of_growPath_eq_error (hs : s.derivation.IsForest)
    (h : growPath (some node) pattern s = .error e s') :
    s.derivation.chainFrom (Index.ofRules s.rules) node pattern = .error e := by
  rw [growPath, nodeOrCurrent_some_bind, Edit.get_bind_apply, Edit.bind_apply, onDerivation,
    Derivation.growPath_eq hs] at h
  cases hchain : s.derivation.chainFrom (Index.ofRules s.rules) node pattern with
  | error e' =>
    rw [hchain] at h
    cases h
    rfl
  | ok chain =>
    rw [hchain] at h
    cases h

/-- No path fails because of a numeral. -/
theorem ne_numeralTooLong_of_growPath (hs : s.derivation.IsForest)
    (h : growPath (some node) pattern s = .error e s') : e ≠ .numeralTooLong := by
  obtain rfl | ⟨fault, rfl⟩ :=
    Derivation.eq_of_chainFrom_eq_error (chainFrom_of_growPath_eq_error hs h)
  · exact nofun
  · exact nofun

theorem execute_growPath_of_ok {n : Nat} {growth : Growth}
    (h : growPath (some n) pattern s = .ok growth s') :
    execute (.growPath pattern (some n)) s = .ok none s' := by
  have hgrow : growPath ((some n).map Int.ofNat) pattern s = .ok growth s' := h
  rw [execute, Edit.bind_apply, hgrow]
  rfl

theorem execute_growPath_of_error {n : Nat} (h : growPath (some n) pattern s = .error e s') :
    execute (.growPath pattern (some n)) s = .error e s' := by
  have hgrow : growPath ((some n).map Int.ofNat) pattern s = .error e s' := h
  rw [execute, Edit.bind_apply, hgrow]

end Session

/-! ## The script

A pattern with blanks at its ends would lose them with the blanks of the line, and one with a line
break would be two lines. Every other pattern that is not empty comes through the command language
unchanged. -/

/-- A pattern that can stand at the end of a line: it is not empty, has no blanks around it and
holds no line break. -/
structure IsLinePattern (pattern : Text) : Prop where
  /-- There is a pattern. -/
  ne_nil : pattern ≠ []
  /-- Reading the line takes nothing off it. -/
  trimmed : pattern.IsTrimmed
  /-- The line does not end within it. -/
  unbroken : ∀ c ∈ pattern, isLineBreak c = false

namespace Program

open Session (start startAt)

variable {v : Verbosity} {mode : DrawingMode} {grammar root pattern script : Text} {number : Nat}
  {rule : Rule}

/-- The lines of a script that creates a root with the symbol of a numbered rule and grows a path
from it. -/
def rootPathLines (number : Nat) (pattern : Text) : List Text :=
  ['+' :: Text.ofNat number, "s 0 ".toList ++ pattern]

/-- The text of the script has these lines. -/
theorem lines_ofLines_rootPathLines (h : IsLinePattern pattern) (number : Nat) :
    (Text.ofLines (rootPathLines number pattern)).lines = rootPathLines number pattern := by
  have hdigit : ∀ c ∈ Text.ofNat number, isLineBreak c = false := fun c hc => by
    have hrange : 48 ≤ c.toNat ∧ c.toNat ≤ 57 := Char.isDigit_iff_toNat.1 (Text.mem_ofNat hc)
    simp only [isLineBreak, Bool.or_eq_false_iff, Bool.and_eq_false_iff, decide_eq_false_iff_not,
      beq_eq_false_iff_ne]
    omega
  refine Text.lines_ofLines fun l hl => ?_
  rcases List.mem_pair.1 hl with rfl | rfl
  · exact List.forall_mem_cons.2 ⟨by decide, hdigit⟩
  · exact List.forall_mem_append.2 ⟨Text.forall_eq_false_of_all (by decide), h.unbroken⟩

theorem run_growPath_line (h : IsLinePattern pattern) (grammar root : Text) :
    Session.run ("s 0 ".toList ++ pattern) (startAt grammar root) =
      Session.execute (.growPath pattern (some 0)) (startAt grammar root) := by
  have hfeed : '\n' ∉ pattern := fun hmem => absurd (h.unbroken _ hmem) (by decide)
  have hwritable : (Command.growPath pattern (some 0)).Writable := by
    refine ⟨fun _ _ heq => ?_, List.forall_mem_singleton.2 (by decide)⟩
    cases heq
    exact ⟨h.ne_nil, h.trimmed, hfeed⟩
  have hread : Command.read ("s 0 ".toList ++ pattern) (startAt grammar root).isSelecting =
      .ok (.growPath pattern (some 0)) := Command.read_written rfl hwritable
  rw [Session.run_eq, hread]

section

variable (hrule : Grammar.ruleNumbered? (Grammar.rules grammar) number = some rule)
  (hrows : grammar.rows.length < 10 ^ Command.maxDigits)

include hrule hrows

/-- The numeral of a rule is read, since there are at least as many rows as rules. -/
theorem run_newRoot_line :
    Session.run ('+' :: Text.ofNat number) (start grammar) =
      .ok none (startAt grammar rule.symbol) := by
  have hshort : (Text.ofNat number).length ≤ Command.maxDigits :=
    Text.length_ofNat_le (by decide)
      ((Grammar.le_length_rows_of_ruleNumbered? hrule).trans_lt hrows)
  have hwritable : (Command.newRoot number).Writable :=
    ⟨fun _ _ => nofun, List.forall_mem_singleton.2 hshort⟩
  have hread : Command.read ('+' :: Text.ofNat number) (start grammar).isSelecting =
      .ok (.newRoot number) := Command.read_written rfl hwritable
  rw [Session.run_eq, hread]
  simp only [Session.execute, Edit.bind_apply, Session.newRoot_start hrule]
  rfl

/-- What the script comes to is decided by its second line, run in the session with the root. -/
theorem playScript_rootPathLines (hscript : script.lines = rootPathLines number pattern) :
    (start grammar).playScript script =
      ((startAt grammar rule.symbol).play [("s 0 ".toList ++ pattern, 2)]).after
        ((start grammar).shown ('+' :: Text.ofNat number) none) := by
  rw [Session.playScript, hscript]
  exact Session.play_of_ok rfl (run_newRoot_line hrule hrows)

/-- When the path can be grown, the script draws the derivation with it. -/
theorem runScript_of_grown {growth : Growth} {s : Session} (hpattern : IsLinePattern pattern)
    (hscript : script.lines = rootPathLines number pattern)
    (hgrow : Session.growPath (some 0) pattern (startAt grammar rule.symbol) = .ok growth s) :
    ∃ errors, runScript v mode grammar script =
      .finished 0 (if v.quiet then [] else s.draw mode) errors := by
  have hrun : Session.run ("s 0 ".toList ++ pattern) (startAt grammar rule.symbol) =
      .ok none s := by
    rw [run_growPath_line hpattern]
    exact Session.execute_growPath_of_ok hgrow
  have hplay := playScript_rootPathLines hrule hrows hscript
  rw [Session.play_of_ok rfl hrun] at hplay
  have hcompleted : ((start grammar).playScript script).completed = true :=
    congrArg Transcript.completed hplay
  have hfinal : ((start grammar).playScript script).final = s := congrArg Transcript.final hplay
  have hfailure : ((start grammar).playScript script).hasFailure = false := by
    rw [Transcript.hasFailure_eq_false_iff, hplay, Transcript.failedLines_after,
      Session.failedLines_shown, Transcript.failedLines_after, Session.failedLines_shown]
    rfl
  have houtput : ((start grammar).playScript script).output = [] := by
    rw [hplay, Transcript.output_after, Session.output_shown_none, Transcript.output_after,
      Session.output_shown_none]
    rfl
  rw [runScript, if_pos hcompleted, hfinal, hfailure, houtput]
  exact ⟨_, rfl⟩

/-- When it cannot, the second line fails. -/
theorem runScript_of_not_grown {e : Error} {s : Session} (hpattern : IsLinePattern pattern)
    (hscript : script.lines = rootPathLines number pattern)
    (hgrow : Session.growPath (some 0) pattern (startAt grammar rule.symbol) = .error e s) :
    ∃ output errors, runScript v mode grammar script = .finished 1 output errors := by
  have hrun : Session.run ("s 0 ".toList ++ pattern) (startAt grammar rule.symbol) =
      .error e s := by
    rw [run_growPath_line hpattern]
    exact Session.execute_growPath_of_error hgrow
  have hshort := Session.ne_numeralTooLong_of_growPath (Session.isForest_startAt _ _) hgrow
  have hplay := playScript_rootPathLines hrule hrows hscript
  rw [Session.play_of_error rfl hrun hshort] at hplay
  have hcompleted : ((start grammar).playScript script).completed = true :=
    congrArg Transcript.completed hplay
  have hfailure : ((start grammar).playScript script).hasFailure = true := by
    rw [← Bool.not_eq_false, Transcript.hasFailure_eq_false_iff, hplay,
      Transcript.failedLines_after, Session.failedLines_shown, Transcript.failedLines_after,
      Session.failedLines_shownFailure]
    exact List.cons_ne_nil _ _
  rw [runScript, if_pos hcompleted, hfailure]
  exact ⟨_, _, rfl⟩

end

/-- The job for a path ends as the script does. -/
theorem growPath_and_runScript {root : Option Text}
    (hrule : Grammar.ruleNumbered? (Grammar.rules grammar) number = some rule)
    (hroot : rule.symbol = rootSymbol root)
    (hrows : grammar.rows.length < 10 ^ Command.maxDigits) (hpattern : IsLinePattern pattern)
    (v : Verbosity) (mode : DrawingMode) (hscript : script.lines = rootPathLines number pattern) :
    ∃ exit output output' errors errors',
      growPath v mode grammar (rootSymbol root) (some pattern) = .finished exit output errors ∧
        runScript v mode grammar script = .finished exit output' errors' ∧
        (exit = 0 ∨ exit = 1) ∧ (exit = 0 → output = output') := by
  obtain ⟨merged, hmerged⟩ := Grammar.exists_merged? (Session.mem_of_ruleNumbered? hrule)
  have hjob := Session.growRootPath_start hmerged pattern
  rw [hroot] at hjob
  rw [growPath, hjob, ← hroot]
  cases hgrow : Session.growPath (some 0) pattern (startAt grammar rule.symbol) with
  | ok growth s =>
    obtain ⟨errors', hrun⟩ := runScript_of_grown hrule hrows hpattern hscript hgrow
    exact ⟨0, _, _, _, errors', rfl, hrun, Or.inl rfl, fun _ => rfl⟩
  | error e s =>
    obtain ⟨output', errors', hrun⟩ := runScript_of_not_grown hrule hrows hpattern hscript hgrow
    exact ⟨1, [], output', _, errors', rfl, hrun, Or.inr rfl, fun h => by cases h⟩

/-- **A path from a new root is grown by a script as well.** The job succeeds exactly when the
script does, and then they draw the same. The number may be that of any rule of the root. Its
numeral is read since it has at most 4300 digits, as the number is not above that of the rows of the
grammar text. -/
theorem growPath_agrees_with_script {root : Option Text}
    (hrule : Grammar.ruleNumbered? (Grammar.rules grammar) number = some rule)
    (hroot : rule.symbol = rootSymbol root)
    (hrows : grammar.rows.length < 10 ^ Command.maxDigits) (hpattern : IsLinePattern pattern)
    (v : Verbosity) (mode : DrawingMode) :
    (Text.ofLines (rootPathLines number pattern)).lines = rootPathLines number pattern ∧
      ∀ script : Text, script.lines = rootPathLines number pattern →
        ∃ exit output output' errors errors',
          growPath v mode grammar (rootSymbol root) (some pattern) =
            .finished exit output errors ∧
          runScript v mode grammar script = .finished exit output' errors' ∧
          (exit = 0 ∨ exit = 1) ∧ (exit = 0 → output = output') := by
  refine ⟨lines_ofLines_rootPathLines hpattern number, fun script hscript => ?_⟩
  exact growPath_and_runScript hrule hroot hrows hpattern v mode hscript

/-- The number is that of the second rule of the root; the first pattern leads to an alternative of
another rule and the second one to none. -/
theorem growPath_agrees_with_script_of_second_rule :
    let grammar : Text := "<s> ::= <a> <b>\n<s> ::= z\n<a> ::= x y | w".toList
    let root : Text := rootSymbol (some "s".toList)
    (∃ rule, Grammar.ruleNumbered? (Grammar.rules grammar) 2 = some rule ∧ rule.symbol = root) ∧
      (∃ output errors errors',
        growPath ⟨false, false⟩ .ids grammar root (some "x y".toList) =
          .finished 0 output errors ∧
        runScript ⟨false, false⟩ .ids grammar "+2\ns 0 x y\n".toList =
          .finished 0 output errors') ∧
      ∃ output output' errors errors',
        growPath ⟨false, false⟩ .ids grammar root (some "q".toList) =
          .finished 1 output errors ∧
        runScript ⟨false, false⟩ .ids grammar "+2\ns 0 q\n".toList =
          .finished 1 output' errors' := by
  intro grammar root
  have hrule : Grammar.ruleNumbered? (Grammar.rules grammar) (2 : Nat) =
      some ⟨some 2, ['s'], ['z'], [], by decide, by decide⟩ := by decide +kernel
  have hroot : symbolOf ['s'] = rootSymbol (some "s".toList) := by decide
  have hrows : grammar.rows.length < 10 ^ Command.maxDigits := by
    have hthree : grammar.rows.length < 10 ^ 1 := by decide +kernel
    exact hthree.trans_le (Nat.pow_le_pow_right (by decide) (by decide))
  have hpattern : ∀ pattern ∈ ["x y".toList, "q".toList], IsLinePattern pattern := by
    intro pattern hmem
    rcases List.mem_pair.1 hmem with rfl | rfl
    · exact ⟨by decide, Text.trim_eq_self_iff.1 (by decide),
        Text.forall_eq_false_of_all (by decide)⟩
    · exact ⟨by decide, Text.trim_eq_self_iff.1 (by decide),
        Text.forall_eq_false_of_all (by decide)⟩
  refine ⟨⟨_, hrule, hroot⟩, ?_, ?_⟩
  · have hcompleted : ((start grammar).playScript "+2\ns 0 x y\n".toList).completed = true := by
      decide +kernel
    have hfailure : ((start grammar).playScript "+2\ns 0 x y\n".toList).hasFailure = false := by
      decide +kernel
    obtain ⟨-, hscript⟩ := growPath_agrees_with_script hrule hroot hrows
      (hpattern "x y".toList (by decide)) ⟨false, false⟩ .ids
    obtain ⟨exit, output, output', errors, errors', hgrow, hrun, -, hsame⟩ :=
      hscript "+2\ns 0 x y\n".toList (by decide +kernel)
    have hexit := hrun
    rw [runScript, if_pos hcompleted, hfailure] at hexit
    obtain rfl : 0 = exit := (Outcome.finished.inj hexit).1
    rw [← hsame rfl] at hrun
    exact ⟨output, errors, errors', hgrow, hrun⟩
  · have hcompleted : ((start grammar).playScript "+2\ns 0 q\n".toList).completed = true := by
      decide +kernel
    have hfailure : ((start grammar).playScript "+2\ns 0 q\n".toList).hasFailure = true := by
      decide +kernel
    obtain ⟨-, hscript⟩ := growPath_agrees_with_script hrule hroot hrows
      (hpattern "q".toList (by decide)) ⟨false, false⟩ .ids
    obtain ⟨exit, output, output', errors, errors', hgrow, hrun, -, -⟩ :=
      hscript "+2\ns 0 q\n".toList (by decide +kernel)
    have hexit := hrun
    rw [runScript, if_pos hcompleted, hfailure] at hexit
    obtain rfl : 1 = exit := (Outcome.finished.inj hexit).1
    exact ⟨output, output', errors, errors', hgrow, hrun⟩

end Program

end GrammarTree
