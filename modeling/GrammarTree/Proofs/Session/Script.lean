import GrammarTree.CommandLine.Program
import GrammarTree.Proofs.Session.Selecting
import GrammarTree.Proofs.Text.Lines

/-!
# Scripts without their failing lines

A line of a script that fails is reported, and the script goes on. This file proves that it goes on
as if the line were not there: a script without the lines that fail shows the same drawings and ends
in the same session. Since a line means different things during a selection and outside of one, this
rests on the fact that a failure does not even end the selection.

That fact is an invariant of lines and comes from `Proofs.Session.Labelled`: the node of a selection
is never gone, so that the one failure with an effect does not arise. The rest is about transcripts.
Leaving lines out changes the numbers of the lines behind them, so transcripts are compared up to
these numbers, which show up in the failures and nowhere else. Leaving lines out of a text may also
swallow empty lines, and these hold no command.

What is here:

* `Session.eq_of_run_eq_error`: a line that fails leaves everything as it is;
* `Transcript.failedLines`, and `Session.isCleared_play` for the lines of a script one by one;
* `Session.renumber_play`: the numbers of the lines show up in the failures and nowhere else;
* `Program.runScript_withoutLines`, all of it for the text of a script.
-/

set_option autoImplicit false

namespace GrammarTree

/-! ## Transcripts -/

namespace ScriptEvent

/-- The number of the line that failed. -/
def failedLine? : ScriptEvent → Option Nat
  | .failure line _ => some line
  | _ => none

/-- An event with another number for each line. -/
def renumber (f : Nat → Nat) : ScriptEvent → ScriptEvent
  | .failure line e => .failure (f line) e
  | event => event

@[simp] theorem output?_renumber (f : Nat → Nat) (event : ScriptEvent) :
    (event.renumber f).output? = event.output? := by
  cases event <;> rfl

@[simp] theorem isFailure_renumber (f : Nat → Nat) (event : ScriptEvent) :
    (event.renumber f).isFailure = event.isFailure := by
  cases event <;> rfl

end ScriptEvent

namespace Transcript

/-- The numbers of the lines that failed. -/
def failedLines (t : Transcript) : List Nat := t.events.filterMap ScriptEvent.failedLine?

/-- A transcript with another number for each line. -/
def renumber (f : Nat → Nat) (t : Transcript) : Transcript :=
  { t with events := t.events.map (ScriptEvent.renumber f) }

variable {t : Transcript}

theorem hasFailure_eq_false_iff : t.hasFailure = false ↔ t.failedLines = [] := by
  rw [hasFailure, failedLines, List.any_eq_false, List.filterMap_eq_nil_iff]
  refine forall₂_congr fun event _ => ?_
  cases event <;> simp [ScriptEvent.isFailure, ScriptEvent.failedLine?]

theorem failedLines_after (events : List ScriptEvent) (t : Transcript) :
    (t.after events).failedLines = events.filterMap ScriptEvent.failedLine? ++ t.failedLines :=
  List.filterMap_append

theorem output_after (events : List ScriptEvent) (t : Transcript) :
    (t.after events).output = (events.filterMap ScriptEvent.output?).flatten ++ t.output := by
  rw [output, after, List.filterMap_append, List.flatten_append, output]

@[simp] theorem output_renumber (f : Nat → Nat) (t : Transcript) :
    (t.renumber f).output = t.output := by
  rw [output, renumber, List.filterMap_map, output]
  exact congrArg List.flatten (List.filterMap_congr fun event _ => event.output?_renumber f)

@[simp] theorem hasFailure_renumber (f : Nat → Nat) (t : Transcript) :
    (t.renumber f).hasFailure = t.hasFailure := by
  rw [hasFailure, renumber, List.any_map, hasFailure]
  exact congrArg (List.any t.events) (funext fun event => event.isFailure_renumber f)

theorem renumber_after (f : Nat → Nat) (events : List ScriptEvent) (t : Transcript) :
    (t.after events).renumber f =
      (t.renumber f).after (events.map (ScriptEvent.renumber f)) := by
  simp only [renumber, after, List.map_append]

/-- A transcript without failures that shows the same drawings and ends in the same session. -/
structure IsCleared (t t' : Transcript) : Prop where
  /-- It is complete. -/
  completed : t'.completed = true
  /-- No line fails. -/
  hasFailure : t'.hasFailure = false
  /-- It shows the same drawings. -/
  output : t'.output = t.output
  /-- It ends in the same session. -/
  final : t'.final = t.final

/-- What is cleared does not depend on the numbers of the lines. -/
theorem IsCleared.congr {t' t'' : Transcript} (h : t.IsCleared t') {f : Nat → Nat}
    (heq : t'.renumber f = t''.renumber f) : t.IsCleared t'' := by
  refine ⟨?_, ?_, ?_, ?_⟩
  · exact (congrArg Transcript.completed heq).symm.trans h.completed
  · rw [← hasFailure_renumber f, ← heq, hasFailure_renumber, h.hasFailure]
  · rw [← output_renumber f, ← heq, output_renumber, h.output]
  · exact (congrArg Transcript.final heq).symm.trans h.final

end Transcript

namespace Session

variable {s s' : Session} {line : Text} {number : Nat} {rest : List (Text × Nat)}

/-! ## Lines that fail -/

/-- **A line that fails leaves everything as it is**, the selection included. -/
theorem eq_of_run_eq_error (hs : s.derivation.IsForest) (h : s.IsLabelled) {text : Text} {e : Error}
    (hrun : run text s = .error e s') : s' = s := by
  have hsettles := run_settles hs text
  rw [hrun] at hsettles
  cases hsettles with
  | refused _ => rfl
  | deselected hlost =>
    obtain ⟨-, selection, hselection, hgone, -⟩ := hlost
    exact absurd ⟨selection, hselection, by simp [hgone]⟩ (not_lacksSelected h)

/-! ## One line of a script

A script that runs to its end meets three kinds of lines: those without a command, those that
succeed, and those that fail and are reported. A line that breaks the script off is ruled out by the
end that it has. -/

theorem play_of_idle (hidle : isIdleLine line = true) :
    s.play ((line, number) :: rest) = s.play rest := by
  rw [play, if_pos hidle]

/-- What is shown for a line that succeeds. -/
def shown (s : Session) (line : Text) (output : Option Text) : List ScriptEvent :=
  (s.runNotes line).map ScriptEvent.note ++ output.toList.map ScriptEvent.output

/-- What is shown for a line that fails. -/
def shownFailure (s : Session) (line : Text) (number : Nat) (e : Error) : List ScriptEvent :=
  (s.runNotes line).map ScriptEvent.note ++ [.failure number e]

theorem play_cons (hidle : isIdleLine line = false) :
    s.play ((line, number) :: rest) =
      match run line s with
      | .ok output s' => (s'.play rest).after (s.shown line output)
      | .error e s' =>
        if e = .numeralTooLong then ⟨(s.runNotes line).map ScriptEvent.note, s', false⟩
        else (s'.play rest).after (s.shownFailure line number e) := by
  rw [play, hidle]
  cases run line s with
  | ok output s' => rfl
  | error e s' => cases e <;> rfl

theorem play_of_ok (hidle : isIdleLine line = false) {output : Option Text}
    (hrun : run line s = .ok output s') :
    s.play ((line, number) :: rest) = (s'.play rest).after (s.shown line output) := by
  rw [play_cons hidle, hrun]

theorem play_of_error (hidle : isIdleLine line = false) {e : Error}
    (hrun : run line s = .error e s') (he : e ≠ .numeralTooLong) :
    s.play ((line, number) :: rest) = (s'.play rest).after (s.shownFailure line number e) := by
  rw [play_cons hidle, hrun]
  exact if_neg he

/-- A script runs to its end only if every line does one of three things. -/
theorem goes_on_of_completed (h : (s.play ((line, number) :: rest)).completed = true) :
    isIdleLine line = true ∨ (isIdleLine line = false ∧
      ((∃ output s', run line s = .ok output s') ∨
        ∃ e s', run line s = .error e s' ∧ e ≠ .numeralTooLong)) := by
  cases hidle : isIdleLine line with
  | true => exact Or.inl rfl
  | false =>
    refine Or.inr ⟨rfl, ?_⟩
    cases hrun : run line s with
    | ok output s' => exact Or.inl ⟨output, s', rfl⟩
    | error e s' =>
      refine Or.inr ⟨e, s', rfl, ?_⟩
      rintro rfl
      rw [play_cons hidle, hrun] at h
      cases h

theorem failedLines_shown (s : Session) (line : Text) (output : Option Text) :
    (s.shown line output).filterMap ScriptEvent.failedLine? = [] := by
  simp [shown, List.filterMap_append, List.filterMap_map, Function.comp_def,
    ScriptEvent.failedLine?]

theorem failedLines_shownFailure (s : Session) (line : Text) (number : Nat) (e : Error) :
    (s.shownFailure line number e).filterMap ScriptEvent.failedLine? = [number] := by
  simp [shownFailure, List.filterMap_append, List.filterMap_map, Function.comp_def,
    ScriptEvent.failedLine?]

theorem output_shown_none (s : Session) (line : Text) :
    (s.shown line none).filterMap ScriptEvent.output? = [] := by
  simp [shown, List.filterMap_map, Function.comp_def, ScriptEvent.output?]

theorem output_shownFailure (s : Session) (line : Text) (number : Nat) (e : Error) :
    (s.shownFailure line number e).filterMap ScriptEvent.output? = [] := by
  simp [shownFailure, List.filterMap_append, List.filterMap_map, Function.comp_def,
    ScriptEvent.output?]

/-! ## All lines of a script

The induction is over the numbered lines. Their numbers are different, so that the numbers of the
lines that fail tell which lines to leave out. -/

/-- Only lines of the script fail. -/
theorem mem_of_mem_failedLines {lines : List (Text × Nat)} (h : number ∈ (s.play lines).failedLines)
    (hcompleted : (s.play lines).completed = true) : number ∈ lines.map Prod.snd := by
  induction lines generalizing s with
  | nil => cases h
  | cons item lines ih =>
    obtain ⟨line, first⟩ := item
    rw [List.map_cons, List.mem_cons]
    obtain hidle | ⟨hidle, ⟨output, s', hrun⟩ | ⟨e, s', hrun, he⟩⟩ :=
      goes_on_of_completed hcompleted
    · rw [play_of_idle hidle] at h hcompleted
      exact Or.inr (ih h hcompleted)
    · rw [play_of_ok hidle hrun] at h hcompleted
      rw [Transcript.failedLines_after, failedLines_shown, List.nil_append] at h
      exact Or.inr (ih h hcompleted)
    · rw [play_of_error hidle hrun he] at h hcompleted
      rw [Transcript.failedLines_after, failedLines_shownFailure, List.singleton_append,
        List.mem_cons] at h
      exact h.imp_right fun hmem => ih hmem hcompleted

theorem filter_cons_of_kept {numbers : List Nat} (h : number ∉ numbers) :
    ((line, number) :: rest).filter (fun item => item.2 ∉ numbers) =
      (line, number) :: rest.filter fun item => item.2 ∉ numbers :=
  List.filter_cons_of_pos (by simpa using h)

theorem filter_cons_of_left_out (h : number ∉ rest.map Prod.snd) (numbers : List Nat) :
    ((line, number) :: rest).filter (fun item => item.2 ∉ number :: numbers) =
      rest.filter fun item => item.2 ∉ numbers := by
  rw [List.filter_cons_of_neg (by simp)]
  refine List.filter_congr fun item hitem => ?_
  have hne : item.2 ≠ number := by
    rintro rfl
    exact h (List.mem_map_of_mem hitem)
  simp [hne]

/-- **The lines that do not fail do the same without the others.** -/
theorem isCleared_play {lines : List (Text × Nat)} (hs : s.derivation.IsForest) (h : s.IsLabelled)
    (hnumbers : (lines.map Prod.snd).Nodup) (hcompleted : (s.play lines).completed = true) :
    (s.play lines).IsCleared
      (s.play (lines.filter fun item => item.2 ∉ (s.play lines).failedLines)) := by
  induction lines generalizing s with
  | nil => exact ⟨rfl, rfl, rfl, rfl⟩
  | cons item lines ih =>
    obtain ⟨line, number⟩ := item
    obtain ⟨hnumber, hnumbers⟩ := List.nodup_cons.1 hnumbers
    obtain hidle | ⟨hidle, ⟨output, s', hrun⟩ | ⟨e, s', hrun, he⟩⟩ :=
      goes_on_of_completed hcompleted
    · rw [play_of_idle hidle] at hcompleted ⊢
      have hkept : number ∉ (s.play lines).failedLines := fun hmem =>
        hnumber (mem_of_mem_failedLines hmem hcompleted)
      rw [filter_cons_of_kept hkept, play_of_idle hidle]
      exact ih hs h hnumbers hcompleted
    · have hs' : s'.derivation.IsForest := by
        have hafter := (Action.run line).isForest_after hs
        rwa [after_run, Edit.finalState, hrun] at hafter
      have h' : s'.IsLabelled := by
        have hafter := isLabelled_run hs h line
        rwa [Edit.finalState, hrun] at hafter
      rw [play_of_ok hidle hrun] at hcompleted ⊢
      have hkept : number ∉ (s'.play lines).failedLines := fun hmem =>
        hnumber (mem_of_mem_failedLines hmem hcompleted)
      rw [Transcript.failedLines_after, failedLines_shown, List.nil_append,
        filter_cons_of_kept hkept, play_of_ok hidle hrun]
      obtain ⟨hdone, hfailure, houtput, hfinal⟩ := ih hs' h' hnumbers hcompleted
      refine ⟨hdone, ?_, ?_, hfinal⟩
      · rw [Transcript.hasFailure_eq_false_iff] at hfailure ⊢
        rw [Transcript.failedLines_after, failedLines_shown, hfailure, List.append_nil]
      · rw [Transcript.output_after, Transcript.output_after, houtput]
    · obtain rfl := eq_of_run_eq_error hs h hrun
      rw [play_of_error hidle hrun he] at hcompleted ⊢
      rw [Transcript.failedLines_after, failedLines_shownFailure, List.singleton_append,
        filter_cons_of_left_out hnumber]
      obtain ⟨hdone, hfailure, houtput, hfinal⟩ := ih hs h hnumbers hcompleted
      refine ⟨hdone, hfailure, ?_, hfinal⟩
      rw [Transcript.output_after, output_shownFailure, houtput]
      rfl

theorem renumber_notes (f : Nat → Nat) (notes : List Note) :
    (notes.map ScriptEvent.note).map (ScriptEvent.renumber f) = notes.map ScriptEvent.note := by
  rw [List.map_map]
  rfl

theorem renumber_shown (f : Nat → Nat) (s : Session) (line : Text) (output : Option Text) :
    (s.shown line output).map (ScriptEvent.renumber f) = s.shown line output := by
  rw [shown, List.map_append, renumber_notes, List.map_map]
  rfl

theorem renumber_shownFailure (f : Nat → Nat) (s : Session) (line : Text) (number : Nat)
    (e : Error) : (s.shownFailure line number e).map (ScriptEvent.renumber f) =
      s.shownFailure line (f number) e := by
  rw [shownFailure, List.map_append, renumber_notes]
  rfl

/-- Numbers of lines show up in the failures only. -/
theorem renumber_play (f : Nat → Nat) (lines : List (Text × Nat)) (s : Session) :
    (s.play lines).renumber f = s.play (lines.map (Prod.map id f)) := by
  induction lines generalizing s with
  | nil => rfl
  | cons item lines ih =>
    obtain ⟨line, number⟩ := item
    rw [List.map_cons, Prod.map_apply, id_eq]
    cases hidle : isIdleLine line with
    | true => rw [play_of_idle hidle, play_of_idle hidle, ih]
    | false =>
      rw [play_cons hidle, play_cons hidle]
      cases run line s with
      | ok output s' =>
        dsimp only
        rw [Transcript.renumber_after, ih, renumber_shown]
      | error e s' =>
        dsimp only
        split
        · rw [Transcript.renumber, renumber_notes]
        · rw [Transcript.renumber_after, ih, renumber_shownFailure]

/-- Lines without a command can be left out. -/
theorem play_filter (lines : List (Text × Nat)) (s : Session) :
    s.play (lines.filter fun item => !isIdleLine item.1) = s.play lines := by
  induction lines generalizing s with
  | nil => rfl
  | cons item lines ih =>
    obtain ⟨line, number⟩ := item
    cases hidle : isIdleLine line with
    | true => rw [List.filter_cons_of_neg (by simp [hidle]), ih, play_of_idle hidle]
    | false =>
      rw [List.filter_cons_of_pos (by simp [hidle]), play_cons hidle, play_cons hidle]
      simp only [ih]

/-! ## The text of a script -/

/-- What a script does is told by its lines with a command, but for their numbers. -/
theorem renumber_play_congr {lines lines' : List (Text × Nat)}
    (h : (lines.map Prod.fst).filter (fun line => !isIdleLine line) =
      (lines'.map Prod.fst).filter fun line => !isIdleLine line) :
    (s.play lines).renumber (fun _ => 0) = (s.play lines').renumber fun _ => 0 := by
  have hplain : ∀ lines : List (Text × Nat), (s.play lines).renumber (fun _ => 0) =
      s.play (((lines.map Prod.fst).filter fun line => !isIdleLine line).map fun line =>
        (line, 0)) := by
    intro lines
    rw [renumber_play, ← play_filter, List.filter_map, List.filter_map, List.map_map]
    rfl
  rw [hplain, hplain, h]

theorem isCleared_playScript (hs : s.derivation.IsForest) (h : s.IsLabelled) (script : Text)
    (hcompleted : (s.playScript script).completed = true) :
    (s.playScript script).IsCleared
      (s.playScript (script.withoutLines (s.playScript script).failedLines)) := by
  have hnumbers : ((script.lines.zipIdx 1).map Prod.snd).Nodup := by
    rw [List.zipIdx_map_snd]
    exact List.nodup_range'
  refine (isCleared_play hs h hnumbers hcompleted).congr (renumber_play_congr ?_)
  rw [List.zipIdx_map_fst]
  exact (Text.filter_lines_withoutLines rfl _ script).symm

/-- Lines are left out exactly if there are failing ones. -/
theorem withoutLines_failedLines_eq_iff (hs : s.derivation.IsForest) (h : s.IsLabelled)
    (script : Text) (hcompleted : (s.playScript script).completed = true) :
    script.withoutLines (s.playScript script).failedLines = script ↔
      (s.playScript script).hasFailure = false := by
  constructor
  · intro heq
    have hcleared := isCleared_playScript hs h script hcompleted
    rw [heq] at hcleared
    exact hcleared.hasFailure
  · intro hnone
    rw [Transcript.hasFailure_eq_false_iff.1 hnone, Text.withoutLines_nil]

end Session

namespace Program

open Session (start)

/-- **Failing lines have no effect.** A script without the lines that fail, in a run that does not
break off, shows the same and ends in the same session, and no line of it fails. The exit code tells
whether there were such lines. -/
theorem runScript_withoutLines {v : Verbosity} {mode : DrawingMode} {grammar script : Text}
    {exit : Nat} {output errors : Text}
    (h : runScript v mode grammar script = .finished exit output errors) :
    let t := (start grammar).playScript script
    let kept := script.withoutLines t.failedLines
    let t' := (start grammar).playScript kept
    (∃ errors', runScript v mode grammar kept = .finished 0 output errors') ∧
      t'.hasFailure = false ∧ t'.output = t.output ∧ t'.final = t.final ∧
      exit = if kept = script then 0 else 1 := by
  intro t kept t'
  have hcompleted : t.completed = true := by
    by_contra hbroken
    rw [runScript, if_neg hbroken] at h
    cases h
  have hlabelled : (start grammar).IsLabelled := Session.isLabelled_of_none rfl
  have hcleared : t.IsCleared t' :=
    Session.isCleared_playScript Derivation.isForest_empty hlabelled script hcompleted
  have hkept : kept = script ↔ t.hasFailure = false :=
    Session.withoutLines_failedLines_eq_iff Derivation.isForest_empty hlabelled script hcompleted
  rw [runScript, if_pos hcompleted] at h
  injection h with hexit houtput herrors
  refine ⟨⟨t'.events.flatMap (eventErrors v), ?_⟩, hcleared.hasFailure, hcleared.output,
    hcleared.final, ?_⟩
  · rw [runScript, if_pos hcleared.completed, hcleared.hasFailure, hcleared.output, hcleared.final,
      houtput]
    rfl
  · rw [← hexit]
    cases hfailure : t.hasFailure with
    | false =>
      rw [if_pos (hkept.2 hfailure)]
      rfl
    | true =>
      rw [if_neg fun heq => Bool.false_ne_true ((hkept.1 heq).symm.trans hfailure)]
      rfl

/-- Of these lines the second and the fourth fail, one outside a selection and one during it. -/
theorem runScript_withoutLines_of_two_failures :
    let grammar : Text := "<s> ::= x | y".toList
    let script : Text := "+1\nzz\n.\n'q'\n1\nr\n".toList
    let kept : Text := "+1\n.\n1\nr\n".toList
    ((start grammar).playScript script).failedLines = [2, 4] ∧
      ∃ output errors errors', runScript ⟨false, false⟩ .ids grammar script =
          .finished 1 output errors ∧
        runScript ⟨false, false⟩ .ids grammar kept = .finished 0 output errors' := by
  intro grammar script kept
  have hfailed : ((start grammar).playScript script).failedLines = [2, 4] := by decide +kernel
  have hkept : script.withoutLines [2, 4] = kept := by decide +kernel
  have hcompleted : ((start grammar).playScript script).completed = true := by decide +kernel
  have hfailure : ((start grammar).playScript script).hasFailure = true := by decide +kernel
  have hrun : ∃ output errors, runScript ⟨false, false⟩ .ids grammar script =
      .finished 1 output errors := by
    rw [runScript, if_pos hcompleted, hfailure]
    exact ⟨_, _, rfl⟩
  obtain ⟨output, errors, hrun⟩ := hrun
  obtain ⟨⟨errors', hclean⟩, -⟩ := runScript_withoutLines hrun
  rw [hfailed, hkept] at hclean
  exact ⟨hfailed, output, errors, errors', hrun, hclean⟩

end Program

end GrammarTree
