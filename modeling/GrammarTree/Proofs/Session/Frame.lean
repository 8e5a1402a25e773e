import GrammarTree.Proofs.Command.Modes
import GrammarTree.Proofs.Grammar.Unnumbered
import GrammarTree.Proofs.Session.Outcome

/-!
# What the commands of a session do not notice

Most commands of a session have nothing to do with the selection: they do not read it, and they
leave it as it is. No command cares for the lines of the rules in the grammar text. This file says
so by a simulation: in a session that is another one in such a way only, a command does the same,
and the difference stays.

The difference is a map of sessions, and an edit simulates another one along the map if it has the
same answer or the same error on images of states and ends in the image of the state. Simulations go
through the steps of an edit, so that most of them are put together from those of their parts. The
conditions on a map are what these parts read and write: it keeps the derivation, the agenda and the
rules but for their lines, and it commutes with a change of either of the first two.

What is here:

* `Edit.Simulates`, the edits that do the same on the images of states under a map, and the steps of
  an edit along which this carries over;
* `Session.Recasts`, the maps of sessions that keep the derivation, the agenda and the rules, with
  `Session.Recasts.execute`: the commands that neither start nor end a selection do not notice them;
* `Session.Frames`, the edits that simulate themselves whatever the selection is.
-/

set_option autoImplicit false

namespace GrammarTree

namespace Edit

variable {σ τ α β : Type} {f : σ → τ}

/-! ## Simulations

The two edits may work on states of different types, which is what the slots of a selection need.
Where they first look at the state, they may see different things, as long as they go on in the same
way. -/

/-- A result with the image of its state. -/
def mapState (f : σ → τ) : EStateM.Result Error σ α → EStateM.Result Error τ α
  | .ok a s => .ok a (f s)
  | .error e s => .error e (f s)

/-- Whether one edit does to the images of states what another does to the states. -/
def Simulates (f : σ → τ) (edit : Edit σ α) (image : Edit τ α) : Prop :=
  ∀ s, image (f s) = mapState f (edit s)

theorem simulates_pure (a : α) : Simulates f (pure a) (pure a) := fun _ => rfl

theorem simulates_throw (e : Error) : Simulates f (throw e : Edit σ α) (throw e) := fun _ => rfl

theorem simulates_modify {change : σ → σ} {change' : τ → τ}
    (h : ∀ s, change' (f s) = f (change s)) : Simulates f (modify change) (modify change') :=
  fun s => congrArg (EStateM.Result.ok ()) (h s)

theorem Simulates.bind {edit : Edit σ α} {image : Edit τ α} {next : α → Edit σ β}
    {next' : α → Edit τ β} (h : Simulates f edit image)
    (hnext : ∀ a, Simulates f (next a) (next' a)) :
    Simulates f (edit >>= next) (image >>= next') := by
  intro s
  rw [bind_apply, bind_apply, h s]
  cases edit s with
  | ok a s' => exact hnext a s'
  | error e s' => rfl

theorem Simulates.ite {p : Prop} [Decidable p] {edit other : Edit σ α} {image other' : Edit τ α}
    (h : Simulates f edit image) (hother : Simulates f other other') :
    Simulates f (if p then edit else other) (if p then image else other') := by
  split
  · exact h
  · exact hother

/-- What is read first may differ, if what follows does the same with it. -/
theorem Simulates.get_bind {next : σ → Edit σ β} {next' : τ → Edit τ β}
    (h : ∀ s, next' (f s) (f s) = mapState f (next s s)) :
    Simulates f (get >>= next) (get >>= next') := h

theorem Simulates.finalState {edit : Edit σ α} {image : Edit τ α} (h : Simulates f edit image)
    (s : σ) : Edit.finalState image (f s) = f (Edit.finalState edit s) := by
  rw [Edit.finalState, h s, Edit.finalState]
  cases edit s <;> rfl

end Edit

namespace Session

variable {α β : Type}

/-! ## Maps that edits do not notice -/

/-- A map of sessions that keeps what most edits read: the derivation, the agenda, and the rules but
for their lines. -/
structure Recasts (f : Session → Session) : Prop where
  /-- The derivation is the same. -/
  derivation : ∀ s, (f s).derivation = s.derivation
  /-- The agenda is the same. -/
  agenda : ∀ s, (f s).agenda = s.agenda
  /-- The rules differ at most in their lines. -/
  rules : ∀ s, Grammar.SameRules (f s).rules s.rules
  /-- Another derivation is carried over. -/
  withDerivation : ∀ s g, f { s with derivation := g } = { f s with derivation := g }
  /-- Another agenda is carried over. -/
  withAgenda : ∀ s q, f { s with agenda := q } = { f s with agenda := q }

namespace Recasts

open Edit (Simulates simulates_pure simulates_throw)

variable {f : Session → Session}

theorem onDerivation (hf : Recasts f) (edit : Edit Derivation α) :
    Simulates f (Session.onDerivation edit) (Session.onDerivation edit) := by
  intro s
  rw [Session.onDerivation, hf.derivation, Session.onDerivation]
  cases edit s.derivation with
  | ok a g => exact congrArg (EStateM.Result.ok a) (hf.withDerivation s g).symm
  | error e g => exact congrArg (EStateM.Result.error e) (hf.withDerivation s g).symm

theorem onAgenda (hf : Recasts f) (change : Agenda → Agenda) :
    Simulates f (Session.onAgenda change) (Session.onAgenda change) := by
  refine Edit.simulates_modify fun s => ?_
  have hchange : change (f s).agenda = change s.agenda := congrArg change (hf.agenda s)
  exact hchange ▸ (hf.withAgenda s _).symm

theorem nodeOrCurrent (hf : Recasts f) (node : Option NodeId) :
    Simulates f (Session.nodeOrCurrent node) (Session.nodeOrCurrent node) := by
  cases node with
  | some id => exact simulates_pure id
  | none =>
    refine Simulates.get_bind fun s => ?_
    rw [hf.agenda]
    cases s.agenda.current? with
    | some id => rfl
    | none => rfl

theorem lookUpRule (hf : Recasts f) (symbol : Text) :
    Simulates f (Session.lookUpRule symbol) (Session.lookUpRule symbol) := by
  refine Simulates.get_bind fun s => ?_
  rw [(hf.rules s).merged?]
  cases Grammar.merged? s.rules symbol with
  | some rule => rfl
  | none => rfl

theorem newRoot (hf : Recasts f) (number : Int) :
    Simulates f (Session.newRoot number) (Session.newRoot number) := by
  refine Simulates.get_bind fun s => ?_
  have hrule := (hf.rules s).ruleNumbered? number
  cases hleft : Grammar.ruleNumbered? (f s).rules number with
  | none =>
    rw [hleft, Option.map_none, eq_comm, Option.map_eq_none_iff] at hrule
    rw [hrule]
    rfl
  | some rule =>
    rw [hleft, Option.map_some, eq_comm, Option.map_eq_some_iff] at hrule
    obtain ⟨rule', hright, hsymbol⟩ := hrule
    rw [hright]
    dsimp only
    rw [hsymbol]
    exact (hf.onDerivation _).bind (fun _ => (hf.onAgenda _).bind fun _ => simulates_pure _) s

theorem link (hf : Recasts f) (parent child : NodeId) :
    Simulates f (Session.link parent child) (Session.link parent child) :=
  (hf.onDerivation _).bind fun _ => hf.onAgenda _

theorem unlink (hf : Recasts f) (node : NodeId) :
    Simulates f (Session.unlink node) (Session.unlink node) :=
  (hf.onDerivation _).bind fun _ => (hf.onAgenda _).bind fun _ => simulates_pure _

theorem delete (hf : Recasts f) (node : NodeId) :
    Simulates f (Session.delete node) (Session.delete node) := by
  refine (hf.onDerivation _).bind fun _ => Simulates.get_bind fun s => ?_
  rw [hf.derivation]
  exact (hf.onAgenda _).bind (fun _ => (hf.onAgenda _).bind fun _ => simulates_pure _) s

theorem makeCurrent (hf : Recasts f) (node : NodeId) :
    Simulates f (Session.makeCurrent node) (Session.makeCurrent node) :=
  (hf.onDerivation _).bind fun _ => hf.onAgenda _

theorem refill (hf : Recasts f) : Simulates f Session.refill Session.refill := by
  refine Simulates.get_bind fun s => ?_
  rw [hf.derivation]
  exact hf.onAgenda _ s

theorem skip (hf : Recasts f) : Simulates f Session.skip Session.skip := by
  refine Simulates.get_bind fun s => ?_
  rw [hf.agenda]
  exact (hf.onAgenda _).bind (fun _ => simulates_pure _) s

theorem growPath (hf : Recasts f) (node : Option NodeId) (pattern : Text) :
    Simulates f (Session.growPath node pattern) (Session.growPath node pattern) := by
  refine (hf.nodeOrCurrent node).bind fun id => Simulates.get_bind fun s => ?_
  rw [(hf.rules s).growPath]
  exact (hf.onDerivation _).bind (fun _ => (hf.onAgenda _).bind fun _ =>
    (hf.onAgenda _).bind fun _ => simulates_pure _) s

theorem draw (hf : Recasts f) (s : Session) (mode : DrawingMode) :
    (f s).draw mode = s.draw mode := by
  rw [Session.draw, hf.derivation, hf.agenda, Session.draw]

/-- **Commands that neither begin nor end a selection do not notice the map.** -/
theorem execute (hf : Recasts f) {c : Command} (hidle : c.isIdle = true)
    (hbegin : ∀ node, c ≠ .beginSelection node) :
    Simulates f (Session.execute c) (Session.execute c) := by
  cases c with
  | draw mode => exact Simulates.get_bind fun s => by rw [hf.draw]; rfl
  | newRoot rule => exact (hf.newRoot _).bind fun _ => simulates_pure _
  | unlink node => exact (hf.unlink _).bind fun _ => simulates_pure _
  | makeCurrent node => exact (hf.makeCurrent _).bind fun _ => simulates_pure _
  | delete node => exact (hf.delete _).bind fun _ => simulates_pure _
  | refill => exact hf.refill.bind fun _ => simulates_pure _
  | skip => exact hf.skip.bind fun _ => simulates_pure _
  | link parent child => exact (hf.link _ _).bind fun _ => simulates_pure _
  | growPath pattern node => exact (hf.growPath _ _).bind fun _ => simulates_pure _
  | beginSelection node => exact absurd rfl (hbegin node)
  | choose position => cases hidle
  | endSelection => cases hidle
  | chooseMatching pattern => cases hidle

end Recasts

/-! ## Frames

To put another selection in place of the one that is there is such a map. An edit that does not
notice any of these maps neither reads the selection nor changes it. -/

/-- A session with another selection. -/
def withSelection (selection : Option Selection) (s : Session) : Session :=
  { s with selection := selection }

theorem recasts_withSelection (selection : Option Selection) :
    Recasts (withSelection selection) where
  derivation _ := rfl
  agenda _ := rfl
  rules _ := .refl _
  withDerivation _ _ := rfl
  withAgenda _ _ := rfl

/-- Whether an edit neither reads nor changes the selection. -/
def Frames (edit : Edit Session α) : Prop :=
  ∀ selection, Edit.Simulates (withSelection selection) edit edit

theorem frames_onDerivation (edit : Edit Derivation α) : Frames (onDerivation edit) :=
  fun selection => (recasts_withSelection selection).onDerivation edit

theorem frames_onAgenda (change : Agenda → Agenda) : Frames (onAgenda change) :=
  fun selection => (recasts_withSelection selection).onAgenda change

theorem frames_nodeOrCurrent (node : Option NodeId) : Frames (nodeOrCurrent node) :=
  fun selection => (recasts_withSelection selection).nodeOrCurrent node

theorem frames_lookUpRule (symbol : Text) : Frames (lookUpRule symbol) :=
  fun selection => (recasts_withSelection selection).lookUpRule symbol

theorem frames_execute {c : Command} (hidle : c.isIdle = true)
    (hbegin : ∀ node, c ≠ .beginSelection node) : Frames (execute c) :=
  fun selection => (recasts_withSelection selection).execute hidle hbegin

/-- An edit that does not change the selection leaves the one that there was. -/
theorem Frames.eq_withSelection {edit : Edit Session α} (h : Frames edit) (s : Session) :
    edit s = Edit.mapState (withSelection s.selection) (edit s) := h s.selection s

end Session

end GrammarTree
