import GrammarTree.Proofs.CommandLine.Operands
import GrammarTree.Proofs.Session.RootPath

/-!
# The command line of a path

The job that grows a path from a new root is given the name of a grammar file, a root and a pattern.
On the command line these are words among others, and not every text is taken there as it was
written: a pattern that starts with a minus sign may be refused, may count as a flag, or may end the
program before any file is read. This file says for which words the pattern reaches the job, and
carries what is known of the job over to the program as a whole.

There are two ways. A word that is free reaches the job wherever it stands, and `IsFree` says which
words are. Behind the terminator every pattern reaches it but the terminator itself, which leaves
its operand out.

What is here:

* `Invocation.AsksForMode`, the words that ask for a drawing mode by its name;
* `Invocation.IsFree` with `Invocation.isFree_iff`, the free words in terms of their characters;
* `Invocation.read_path_iff` and `Invocation.read_path_of_terminator`, the two ways, and
  `Invocation.read_run_of_terminator`, the second of them for a script;
* `Program.run_path`, the program on such command lines;
* `Program.run_path_prints_as_run`: the program prints for a path what it prints for the script that
  grows the same path;
* `Program.growPath_finishes`: the job succeeds, or there is no rule for the root, or no path.

The agreement with the script is stated for any two command lines that are read as the two jobs, so
that it does not depend on how they were written.
-/

set_option autoImplicit false

namespace GrammarTree

/-! ## Drawing modes -/

namespace DrawingMode

/-- No two modes have one name. -/
theorem ofName?_eq_some_iff {name : Text} {mode : DrawingMode} :
    ofName? name = some mode ↔ mode.name = name := by
  constructor
  · intro h
    simpa using List.find?_some h
  · rintro rfl
    cases mode <;> decide

end DrawingMode

namespace Invocation

open Word (IsOperand terminator)

/-- Whether words ask for a drawing mode: none for the usual one, and the name of the mode behind
two minus signs for the others. -/
inductive AsksForMode : List Text → DrawingMode → Prop where
  /-- The usual mode is not asked for. -/
  | usual : AsksForMode [] .ids
  /-- Another mode is asked for by its name. -/
  | named {name : Text} {mode : DrawingMode} (hname : DrawingMode.ofName? name = some mode)
      (hmode : mode ≠ .ids) : AsksForMode ['-' :: '-' :: name] mode

namespace AsksForMode

variable {words : List Text} {mode : DrawingMode}

theorem exists_givesFlags (h : AsksForMode words mode) :
    ∃ flags, GivesFlags Flag.drawingNames words flags ∧ drawingMode flags = mode := by
  cases h with
  | usual => exact ⟨[], .none, rfl⟩
  | named hname hmode =>
    obtain rfl := DrawingMode.ofName?_eq_some_iff.1 hname
    cases mode with
    | ids => exact absurd rfl hmode
    | plain => exact ⟨[.plain], .one (by decide) (by decide) rfl, rfl⟩
    | full => exact ⟨[.full], .one (by decide) (by decide) rfl, rfl⟩

theorem read_ne_ambiguous (h : AsksForMode words mode) :
    ∀ word ∈ words, Word.read Flag.programNames word ≠ .ambiguous := by
  cases h with
  | usual => exact fun word hword => absurd hword List.not_mem_nil
  | named hname hmode =>
    obtain rfl := DrawingMode.ofName?_eq_some_iff.1 hname
    cases mode <;> decide

end AsksForMode

/-! ## Words that reach a job -/

/-- Whether a word is taken as it is by a command that draws. The program looks for flags of its own
in all words in front of the terminator, and breaks off at one that may stand for several. -/
structure IsFree (word : Text) : Prop where
  /-- The command takes it as an operand. -/
  operand : IsOperand Flag.drawingNames word
  /-- The program does not take it for the beginning of several flags. -/
  unambiguous : Word.read Flag.programNames word ≠ .ambiguous

/-- **Which words are free.** A word with a minus sign in front is free only if nothing stands
behind the sign, or if it is a negative number or a phrase that neither the command nor the program
can take for a flag. -/
theorem isFree_iff {word : Text} :
    IsFree word ↔ word.head? ≠ some '-' ∨ word = ['-'] ∨
      (Word.fitsNone Flag.drawingNames word = true ∧
        (Word.isMagnitude word.tail = true ∨ ' ' ∈ word) ∧
        Word.read Flag.programNames word ≠ .ambiguous) := by
  constructor
  · intro h
    rcases (Word.read_eq_operand_iff _ _).1 h.operand.read_eq with hhead | hminus | ⟨hfits, hphrase⟩
    · exact Or.inl hhead
    · exact Or.inr (Or.inl hminus)
    · exact Or.inr (Or.inr ⟨hfits, hphrase, h.unambiguous⟩)
  · rintro (hhead | rfl | ⟨hfits, hphrase, hunambiguous⟩)
    · have hoperand := fun names => (Word.read_eq_operand_iff names word).2 (Or.inl hhead)
      refine ⟨⟨?_, hoperand _⟩, ?_⟩
      · rintro rfl
        exact hhead rfl
      · rw [hoperand]
        nofun
    · exact ⟨⟨by decide, by decide⟩, by decide⟩
    · refine ⟨⟨?_, ?_⟩, hunambiguous⟩
      · rintro rfl
        exact absurd hfits (by decide)
      · exact (Word.read_eq_operand_iff _ _).2 (Or.inr (Or.inr ⟨hfits, hphrase⟩))

section

variable {command grammar root pattern script : Text} {args words : List Text} {mode : DrawingMode}

/-- A command line without flags in front of the command. -/
theorem read_cons (hcommand : IsOperand Flag.programNames command)
    (hplain : hasAmbiguity Flag.programNames (command :: args) = false) :
    read (command :: args) = (readJob command args).map (⟨⟨false, false⟩, ·⟩) := by
  rw [read, hplain, readProgram, if_neg hcommand.ne_terminator, hcommand.read_eq]
  cases readJob command args <;> rfl

theorem read_cons_eq_ok {i : Invocation} (hcommand : IsOperand Flag.programNames command)
    (h : read (command :: args) = .ok i) :
    hasAmbiguity Flag.programNames (command :: args) = false ∧
      readJob command args = .ok i.job := by
  have hplain : hasAmbiguity Flag.programNames (command :: args) = false := by
    rw [read] at h
    split at h
    · cases h
    · exact Bool.eq_false_iff.2 ‹_›
  rw [read_cons hcommand hplain] at h
  cases hjob : readJob command args with
  | error exit =>
    rw [hjob] at h
    cases h
  | ok job =>
    rw [hjob] at h
    cases h
    exact ⟨hplain, rfl⟩

theorem hasAmbiguity_of_isFree (hcommand : IsOperand Flag.programNames command)
    (hargs : ∀ arg ∈ args, IsFree arg) (hmode : AsksForMode words mode) :
    hasAmbiguity Flag.programNames (command :: (args ++ words)) = false := by
  refine hasAmbiguity_eq_false fun word hword => ?_
  rcases List.mem_cons.1 (List.takeWhile_subset _ hword) with rfl | hmem
  · rw [hcommand.read_eq]
    nofun
  · rcases List.mem_append.1 hmem with hmem | hmem
    · exact (hargs word hmem).unambiguous
    · exact hmode.read_ne_ambiguous word hmem

theorem hasAmbiguity_of_terminator (hcommand : IsOperand Flag.programNames command)
    (hmode : AsksForMode words mode) :
    hasAmbiguity Flag.programNames (command :: (words ++ terminator :: args)) = false := by
  refine hasAmbiguity_eq_false fun word hword => ?_
  have hfront : word ∈ command :: words := by
    rw [← List.cons_append, List.takeWhile_append] at hword
    split at hword
    · rw [List.takeWhile_cons_of_neg (by simp), List.append_nil] at hword
      exact hword
    · exact List.takeWhile_subset _ hword
  rcases List.mem_cons.1 hfront with rfl | hmem
  · rw [hcommand.read_eq]
    nofun
  · exact hmode.read_ne_ambiguous word hmem

theorem isOperand_path : IsOperand Flag.programNames "path".toList := ⟨by decide, by decide⟩

theorem isOperand_run : IsOperand Flag.programNames "run".toList := ⟨by decide, by decide⟩

theorem readJob_path {flags : List Flag}
    (h : readCommand Flag.drawingNames ⟨3, 0⟩ args =
      .ok ([grammar, root, pattern].map some, flags)) :
    readJob "path".toList args =
      .ok (.path grammar (some root) (some pattern) (drawingMode flags)) := by
  rw [readJob, if_neg (by decide), if_neg (by decide), if_neg (by decide), if_pos rfl, h]
  rfl

theorem readJob_run {flags : List Flag}
    (h : readCommand Flag.drawingNames ⟨1, 1⟩ args = .ok ([grammar, script].map some, flags)) :
    readJob "run".toList args = .ok (.run grammar (some script) (drawingMode flags)) := by
  rw [readJob, if_neg (by decide), if_neg (by decide), if_pos rfl, h]
  rfl

theorem readJob_path_eq_ok (h : readJob "path".toList args =
      .ok (.path grammar (some root) (some pattern) mode)) :
    ∃ flags, readCommand Flag.drawingNames ⟨3, 0⟩ args =
      .ok ([grammar, root, pattern].map some, flags) := by
  rw [readJob, if_neg (by decide), if_neg (by decide), if_neg (by decide), if_pos rfl] at h
  split at h
  · rename_i flags hcommand
    cases h
    exact ⟨flags, hcommand⟩
  · cases h
  · cases h

/-- Free words reach the job, whatever mode is asked for behind them. -/
theorem read_path (hfree : ∀ word ∈ [grammar, root, pattern], IsFree word)
    (hmode : AsksForMode words mode) :
    read ("path".toList :: ([grammar, root, pattern] ++ words)) =
      .ok ⟨⟨false, false⟩, .path grammar (some root) (some pattern) mode⟩ := by
  obtain ⟨flags, hflags, rfl⟩ := hmode.exists_givesFlags
  have hcommand := readCommand_of_isOperand (a := ⟨3, 0⟩) (fun word hword =>
    (hfree word hword).operand) (Nat.le_refl 3) (Nat.le_refl 3) hflags
  rw [read_cons isOperand_path (hasAmbiguity_of_isFree isOperand_path hfree hmode),
    readJob_path hcommand]
  rfl

/-- **The words of a path reach its job just when all of them are free.** -/
theorem read_path_iff :
    read ["path".toList, grammar, root, pattern] =
        .ok ⟨⟨false, false⟩, .path grammar (some root) (some pattern) .ids⟩ ↔
      ∀ word ∈ [grammar, root, pattern], IsFree word := by
  refine ⟨fun h word hword => ?_, fun h => read_path h .usual⟩
  obtain ⟨hplain, hjob⟩ := read_cons_eq_ok isOperand_path h
  obtain ⟨flags, hcommand⟩ := readJob_path_eq_ok hjob
  have hoperands := isOperand_of_readCommand hcommand rfl
  have hfront : ∀ arg ∈ "path".toList :: [grammar, root, pattern], decide (arg ≠ terminator) := by
    refine List.forall_mem_cons.2 ⟨by decide, fun arg harg => ?_⟩
    exact decide_eq_true (hoperands arg harg).ne_terminator
  rw [hasAmbiguity, List.takeWhile_eq_self_iff.2 hfront, List.any_eq_false] at hplain
  refine ⟨hoperands word hword, ?_⟩
  simpa using hplain word (List.mem_cons_of_mem _ hword)

/-- **Behind the terminator the words of a path reach its job whatever they look like**, unless the
root or the pattern is a terminator itself. -/
theorem read_path_of_terminator (hroot : root ≠ terminator) (hpattern : pattern ≠ terminator)
    (hmode : AsksForMode words mode) :
    read ("path".toList :: (words ++ [terminator, grammar, root, pattern])) =
      .ok ⟨⟨false, false⟩, .path grammar (some root) (some pattern) mode⟩ := by
  obtain ⟨flags, hflags, rfl⟩ := hmode.exists_givesFlags
  have hcommand := @readCommand_of_terminator Flag.drawingNames ⟨3, 0⟩ [root, pattern] _ _ grammar
    (List.forall_mem_cons.2 ⟨hroot, List.forall_mem_singleton.2 hpattern⟩) (Nat.le_refl 3)
    (Nat.le_refl 3) (by decide) hflags
  rw [read_cons isOperand_path (hasAmbiguity_of_terminator isOperand_path hmode),
    readJob_path hcommand]
  rfl

/-- The words of a script reach its job in the same way. -/
theorem read_run_of_terminator (hscript : script ≠ terminator) (hmode : AsksForMode words mode) :
    read ("run".toList :: (words ++ [terminator, grammar, script])) =
      .ok ⟨⟨false, false⟩, .run grammar (some script) mode⟩ := by
  obtain ⟨flags, hflags, rfl⟩ := hmode.exists_givesFlags
  have hcommand := @readCommand_of_terminator Flag.drawingNames ⟨1, 1⟩ [script] _ _ grammar
    (List.forall_mem_singleton.2 hscript) (Nat.le_succ 1) (Nat.le_refl 2) (by decide) hflags
  rw [read_cons isOperand_run (hasAmbiguity_of_terminator isOperand_run hmode),
    readJob_run hcommand]
  rfl

end

/-- A phrase is free and a flag is not; behind the terminator both reach the job. -/
example :
    let path : Text → Except Nat Invocation := fun pattern =>
      .ok ⟨⟨false, false⟩, .path ['g'] (some ['s']) (some pattern) .ids⟩
    read ["path".toList, ['g'], ['s'], "-x y".toList] = path "-x y".toList ∧
      read ["path".toList, ['g'], ['s'], "-x".toList] = .error usageExit ∧
      read ["path".toList, "--".toList, ['g'], ['s'], "-x".toList] = path "-x".toList := by
  decide +kernel

end Invocation

/-! ## What the program prints -/

namespace Program

open Invocation (AsksForMode IsFree)
open Session (start startAt)

variable {read : Reader} {input : Text} {grammarFile scriptFile grammar script root pattern : Text}
  {words args args' : List Text} {v : Verbosity} {mode : DrawingMode}

/-- **A pattern on the command line reaches the job as it was written**, as a free word or behind
the terminator, together with the root. -/
theorem run_path (read : Reader) (input : Text) (hmode : AsksForMode words mode) :
    let job := withFile read grammarFile fun grammar =>
      growPath ⟨false, false⟩ mode grammar (rootSymbol (some root)) (some pattern)
    ((∀ word ∈ [grammarFile, root, pattern], IsFree word) →
      run read input ("path".toList :: ([grammarFile, root, pattern] ++ words)) = job) ∧
    (root ≠ Word.terminator → pattern ≠ Word.terminator →
      run read input ("path".toList :: (words ++ [Word.terminator, grammarFile, root, pattern])) =
        job) := by
  refine ⟨fun hfree => ?_, fun hroot hpattern => ?_⟩
  · rw [run, Invocation.read_path hfree hmode]
    rfl
  · rw [run, Invocation.read_path_of_terminator hroot hpattern hmode]
    rfl

/-- **The program prints for a path what it prints for the script.** The command lines may be any
two that are read as these jobs; those of `read_path` and `read_run_of_terminator` are. -/
theorem run_path_prints_as_run {number : Nat} {rule : Rule}
    (hpath : Invocation.read args =
      .ok ⟨v, .path grammarFile (some root) (some pattern) mode⟩)
    (hrun : Invocation.read args' = .ok ⟨v, .run grammarFile (some scriptFile) mode⟩)
    (hgrammar : read grammarFile = .ok grammar) (hscript : read scriptFile = .ok script)
    (hlines : script.lines = rootPathLines number pattern)
    (hrule : Grammar.ruleNumbered? (Grammar.rules grammar) number = some rule)
    (hroot : rule.symbol = rootSymbol (some root))
    (hrows : grammar.rows.length < 10 ^ Command.maxDigits) (hpattern : IsLinePattern pattern) :
    ∃ exit output output' errors errors',
      run read input args = .finished exit output errors ∧
        run read input args' = .finished exit output' errors' ∧
        (exit = 0 ∨ exit = 1) ∧ (exit = 0 → output = output') := by
  have hjob : run read input args =
      growPath v mode grammar (rootSymbol (some root)) (some pattern) := by
    rw [run, hpath]
    simp only [perform, withFile, hgrammar]
  have hjob' : run read input args' = runScript v mode grammar script := by
    rw [run, hrun]
    simp only [perform, withFile, hgrammar, hscript]
  rw [hjob, hjob']
  exact growPath_and_runScript hrule hroot hrows hpattern v mode hlines

/-- **A path fails for want of a rule or of a path**, and in no other way: the node to start from is
there, since the job has created it. -/
theorem growPath_finishes (v : Verbosity) (mode : DrawingMode) (grammar root pattern : Text) :
    (∃ output errors, growPath v mode grammar root (some pattern) = .finished 0 output errors) ∨
      ∃ e, growPath v mode grammar root (some pattern) =
          failPath v (rootPathNotes grammar root pattern) e ∧
        (e = .noRuleFor root ∨ e.isPathFault = true) := by
  rw [growPath]
  cases hmerged : Grammar.merged? (Grammar.rules grammar) root with
  | none =>
    have hnone : Grammar.merged? (start grammar).rules root = none := hmerged
    have hfail : Session.growRootPath root pattern (start grammar) =
        .error (.noRuleFor root) (start grammar) := by
      rw [Session.growRootPath, Edit.bind_apply, Session.lookUpRule_eq, hnone]
    rw [hfail]
    exact Or.inr ⟨_, rfl, Or.inl rfl⟩
  | some merged =>
    rw [Session.growRootPath_start hmerged]
    cases hgrow : Session.growPath (some 0) pattern (startAt grammar root) with
    | ok growth s => exact Or.inl ⟨_, _, rfl⟩
    | error e s =>
      have hchain := Session.chainFrom_of_growPath_eq_error (Session.isForest_startAt _ _) hgrow
      exact Or.inr ⟨e, rfl, Or.inr (Derivation.isPathFault_of_chainFrom hchain)⟩

end Program

end GrammarTree
