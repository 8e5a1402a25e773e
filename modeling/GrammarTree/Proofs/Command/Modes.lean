import GrammarTree.Command.Parser

/-!
# What is read in which mode

During a selection a line can only make or end the choice, and outside of one it can be anything
else. The two readings share no command, and this file says so once, for all lines: whatever is read
belongs to the mode in which it was read. What a session does with a line then depends on its mode
alone and not on how the line was written.

A line that cannot be read is an error of its own, and never one about a missing node, since reading
looks at the line and not at the derivation. This is part of the same statement: it is what the
invariant of a selection needs, which has to know that no line but a choice can end it.

What is here:

* `Command.isIdle`, the commands outside a selection;
* `Command.ReadsAs`, what a reading may give, with one lemma for the reading of a number, which all
  forms go through;
* `Command.readsAs_readDefault` and `Command.readsAs_readSelection`, the two modes;
* `Command.readsAs_read`: a line reads as a command for the mode that it is read in.
-/

set_option autoImplicit false

namespace GrammarTree

namespace Command

/-- Whether a command belongs outside a selection: it neither makes nor ends a choice. -/
def isIdle : Command → Bool
  | .choose _ => false
  | .endSelection => false
  | .chooseMatching _ => false
  | _ => true

/-- Whether a reading gives a command for a mode, or an error that is not about a node. -/
def ReadsAs (idle : Bool) : Except Error Command → Prop
  | .ok c => c.isIdle = idle
  | .error e => ∀ id operation, e ≠ .noSuchNode id operation

variable {idle : Bool}

/-! ## Forms -/

theorem readsAs_invalidCommand (t reason : Text) :
    ReadsAs idle (.error (.invalidCommand t reason)) := fun _ _ h => by cases h

/-- A numeral that is too long is the only failure of reading a number. -/
theorem readsAs_readNumber_bind {digits : Text} {f : Nat → Except Error Command}
    (hf : ∀ number, ReadsAs idle (f number)) : ReadsAs idle (readNumber digits >>= f) := by
  rw [readNumber]
  split
  · exact hf _
  · exact fun _ _ h => by cases h

theorem isIdle_of_ofKeyword? {t : Text} {c : Command} (h : ofKeyword? t = some c) :
    c.isIdle = true := by
  unfold ofKeyword? at h
  split at h <;> cases h <;> rfl

theorem isIdle_ofOperator (operator : Char) (number : Nat) :
    (ofOperator operator number).isIdle = true := by
  rw [ofOperator]
  split
  · rfl
  · split
    · rfl
    · split <;> rfl

theorem readsAs_readOperation (t argument : Text) (operator : Char) :
    ReadsAs true (readOperation t operator argument) := by
  rw [readOperation]
  split
  · exact readsAs_invalidCommand _ _
  · split
    · exact readsAs_readNumber_bind fun number => isIdle_ofOperator operator number
    · exact readsAs_invalidCommand _ _

/-! ## Modes -/

theorem readsAs_readDefault (t : Text) : ReadsAs true (readDefault t) := by
  unfold readDefault
  split
  · rename_i hkeyword
    exact isIdle_of_ofKeyword? hkeyword
  · split
    · exact readsAs_readNumber_bind fun _ => rfl
    · split
      · rfl
      · split
        · exact readsAs_readOperation _ _ _
        · split
          · exact readsAs_readNumber_bind fun _ => rfl
          · split
            · exact readsAs_readNumber_bind fun _ => readsAs_readNumber_bind fun _ => rfl
            · exact readsAs_invalidCommand _ _

theorem readsAs_readSelection (t : Text) : ReadsAs false (readSelection t) := by
  rw [readSelection]
  split
  · refine readsAs_readNumber_bind fun number => ?_
    show isIdle (if number < 1 then .endSelection else .choose (some number)) = false
    split <;> rfl
  · split
    · rfl
    · split
      · rfl
      · split <;> rfl

/-- **A line reads as a command for the mode that it is read in.** -/
theorem readsAs_read (text : Text) (selecting : Bool) :
    ReadsAs (!selecting) (read text selecting) := by
  rw [read]
  split
  · exact readsAs_invalidCommand _ _
  · cases selecting with
    | true => exact readsAs_readSelection _
    | false => exact readsAs_readDefault _

end Command

end GrammarTree
