import GrammarTree.Proofs.Session.Selecting

/-!
# Sessions over the written form of a grammar

A session reads its grammar text again for every query. This file proves that it may as well read
the written form of the grammar: the layout and the malformed blocks are gone from it, and the rules
start on other lines, but a session over it shows and does the same, line by line.

Going over to the written form is a map of sessions as in `Proofs.Session.Frame`, since the rules of
the written form are the same but for their lines. That covers the commands without a selection. For
the others it is the merged rule that counts, and a merged rule has no line, so that both sessions
hold the same selection.

What is here:

* `Session.normalized`, a session over the written form of its grammar;
* `Session.simulates_normalized_run`: a line does the same in both;
* `Session.run_afterAll_toText`, the same for every history of lines.
-/

set_option autoImplicit false

namespace GrammarTree

namespace Session

open Edit (Simulates)

/-- The session over the written form of its grammar. -/
def normalized (s : Session) : Session := { s with grammar := Grammar.toText s.rules }

theorem recasts_normalized : Recasts normalized where
  derivation _ := rfl
  agenda _ := rfl
  rules s := Grammar.sameRules_toText s.grammar
  withDerivation _ _ := rfl
  withAgenda _ _ := rfl

/-! ## Selections -/

theorem simulates_normalized_beginSelection (node : Option NodeId) :
    Simulates normalized (beginSelection node) (beginSelection node) := by
  refine (recasts_normalized.nodeOrCurrent node).bind fun id => Simulates.get_bind fun s => ?_
  rw [recasts_normalized.derivation]
  cases s.derivation.label? id with
  | none => rfl
  | some label => exact (recasts_normalized.lookUpRule label).bind (fun _ _ => rfl) s

theorem simulates_normalized_endSelection : Simulates normalized endSelection endSelection :=
  fun _ => rfl

theorem simulates_normalized_expandSelected (node : NodeId) (alternative : Text) :
    Simulates normalized (expandSelected node alternative) (expandSelected node alternative) := by
  refine (recasts_normalized.onDerivation _).bind fun created =>
    (recasts_normalized.onAgenda _).bind fun _ => Simulates.get_bind fun s => ?_
  exact (recasts_normalized.onAgenda _).bind (fun _ =>
    simulates_normalized_endSelection.bind fun _ => Edit.simulates_pure created) s

theorem simulates_normalized_choose (position : Option Int) :
    Simulates normalized (choose position) (choose position) := by
  intro s
  have hselection : s.normalized.selection = s.selection := rfl
  rw [choose_eq, choose_eq, hselection]
  cases s.selection with
  | none => rfl
  | some selection =>
    dsimp only
    rw [recasts_normalized.derivation]
    split
    · cases alternativeAt? selection.rule position with
      | none => rfl
      | some alternative => exact simulates_normalized_expandSelected _ alternative s
    · rfl

theorem simulates_normalized_chooseMatching (pattern : Text) :
    Simulates normalized (chooseMatching pattern) (chooseMatching pattern) := by
  refine Simulates.get_bind fun s => ?_
  have halternatives : s.normalized.alternatives = s.alternatives := rfl
  rw [halternatives]
  cases onlyMatch? (fun item => matchesPattern pattern item.1) (s.alternatives.zipIdx 1) with
  | some item => exact simulates_normalized_choose _ s
  | none =>
    cases s.alternatives.countP (matchesPattern pattern) with
    | zero => rfl
    | succ count => rfl

/-! ## Commands and lines -/

theorem simulates_normalized_execute (c : Command) :
    Simulates normalized (execute c) (execute c) := by
  cases c with
  | beginSelection node =>
    exact (simulates_normalized_beginSelection _).bind fun _ => Edit.simulates_pure _
  | choose position => exact (simulates_normalized_choose _).bind fun _ => Edit.simulates_pure _
  | endSelection => exact simulates_normalized_endSelection.bind fun _ => Edit.simulates_pure _
  | chooseMatching pattern =>
    exact (simulates_normalized_chooseMatching pattern).bind fun _ => Edit.simulates_pure _
  | _ => exact recasts_normalized.execute rfl fun _ h => by cases h

/-- **A line does the same over the written form of the grammar.** -/
theorem simulates_normalized_run (text : Text) : Simulates normalized (run text) (run text) := by
  refine Simulates.get_bind fun s => ?_
  have hselecting : s.normalized.isSelecting = s.isSelecting := rfl
  rw [hselecting]
  cases Command.read text s.isSelecting with
  | ok c => exact simulates_normalized_execute c s
  | error e => rfl

/-! ## Histories -/

theorem afterAll_normalized (lines : List Text) (s : Session) :
    afterAll (lines.map .run) s.normalized = (afterAll (lines.map .run) s).normalized := by
  induction lines generalizing s with
  | nil => rfl
  | cons line lines ih =>
    have hstep : (Action.run line).after s.normalized = ((Action.run line).after s).normalized := by
      rw [after_run, (simulates_normalized_run line).finalState, after_run]
    rw [List.map_cons, afterAll, hstep, ih, afterAll]

/-- **Only the rules of a grammar text matter.** After the same lines, a session over a grammar text
and one over its written form hold the same and offer the same, and the next line has the same
answer, or the same error, in both. -/
theorem run_afterAll_toText (grammar : Text) (lines : List Text) (text : Text) :
    let s := afterAll (lines.map .run) (start grammar)
    let s' := afterAll (lines.map .run) (start (Grammar.toText (Grammar.rules grammar)))
    s'.derivation = s.derivation ∧ s'.agenda = s.agenda ∧ s'.selection = s.selection ∧
      s'.isSelecting = s.isSelecting ∧ s'.alternatives = s.alternatives ∧
      run text s' = Edit.mapState normalized (run text s) := by
  intro s s'
  have hs' : s' = s.normalized := afterAll_normalized lines (start grammar)
  rw [hs']
  exact ⟨rfl, rfl, rfl, rfl, rfl, simulates_normalized_run text s⟩

end Session

end GrammarTree
