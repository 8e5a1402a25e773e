import GrammarTree.CommandLine.Invocation
import Mathlib.Data.List.TakeWhile

/-!
# Which words are operands

A command line is read word by word, and what a word is depends on its first characters, on the
names of the flags and on the words in front of it. A name of a file, the root of a path and a
pattern are free texts, so each of them may happen to look like a flag. This file says which texts
do not, and what can be done about the others.

A word without a minus sign in front is an operand, and so is the minus sign alone. A word that
starts with a minus sign is an operand only if it fits no flag and is either a negative number or a
phrase, that is, a text with a space. Everything else is refused or counts as a flag. Behind the
terminator, though, any text is an operand but a second terminator.

What is here:

* `Word.fitsNone` and `Word.read_eq_operand_iff`, the words that are operands, for any flags;
* `Word.IsOperand`, a word that is neither a flag nor the terminator, and
  `Invocation.scan_append_of_isOperand`, which takes such words one after the other;
* `Invocation.readCommand_of_isOperand` and `Invocation.readCommand_of_terminator`, the two ways in
  which a command gets all of its operands;
* `Invocation.isOperand_of_scan`, the converse of the first of them: a command that gets as many
  operands as it has words has nothing but operands.

The two ways are stated with a word in front or behind that names a flag, since the flags of a
command may stand anywhere among its operands. Where a flag stands between two operands, the
terminator behind it belongs to the next operand; nothing here depends on this case.
-/

set_option autoImplicit false

namespace GrammarTree

namespace Word

variable {names : FlagNames} {t : Text}

/-! ## Words with a minus sign in front -/

/-- Whether a word is the name of no flag and cannot be shortened or continued from one. Behind two
minus signs, what stands in front of an equals sign may be the beginning of a long name; behind one
of them, the first letter may be a short name. -/
def fitsNone (names : FlagNames) (t : Text) : Bool :=
  match t with
  | '-' :: c :: _ =>
    if c = '-' then names.all fun entry => !(t.takeWhile (· ≠ '=')).isPrefixOf entry.1
    else (names.lookup t).isNone && (names.lookup ['-', c]).isNone
  | _ => true

theorem mem_of_lookup_eq_some {f : Flag} (h : names.lookup t = some f) : (t, f) ∈ names := by
  obtain ⟨front, back, rfl, -⟩ := List.lookup_eq_some_iff.1 h
  exact List.mem_append_right _ (List.mem_cons_self ..)

theorem nameless_eq_operand_iff :
    nameless t = .operand ↔ isMagnitude t.tail = true ∨ ' ' ∈ t := by
  rw [nameless, ← List.contains_iff_mem, ← Bool.or_eq_true]
  split
  · rename_i h
    exact iff_of_true rfl h
  · rename_i h
    exact iff_of_false nofun h

/-- Behind two minus signs, a word that begins no long name is nameless, and every other word is
refused or is a flag. -/
theorem ofBeginning_eq_operand_iff :
    ofBeginning names t = .operand ↔
      (∀ entry ∈ names, (t.takeWhile (· ≠ '=')).isPrefixOf entry.1 = false) ∧
        nameless t = .operand := by
  have hnone : (names.filter fun entry => (t.takeWhile (· ≠ '=')).isPrefixOf entry.1) = [] ↔
      ∀ entry ∈ names, (t.takeWhile (· ≠ '=')).isPrefixOf entry.1 = false := by
    simp only [List.filter_eq_nil_iff, Bool.not_eq_true]
  rw [ofBeginning, ← hnone]
  split
  · rename_i hname
    obtain ⟨f, hf⟩ := Option.isSome_iff_exists.1 hname
    refine iff_of_false nofun fun h => ?_
    have hfits := hnone.1 h.1 _ (mem_of_lookup_eq_some hf)
    rw [List.isPrefixOf_iff_prefix.2 List.prefix_rfl] at hfits
    cases hfits
  · split
    · rename_i hfilter
      exact (and_iff_right hfilter).symm
    · rename_i hfilter
      refine iff_of_false ?_ fun h => List.cons_ne_nil _ _ (hfilter.symm.trans h.1)
      split <;> nofun
    · rename_i hfilter _
      exact iff_of_false nofun fun h => hfilter h.1

theorem withLetters_ne_operand (f : Flag) (rest : Text) :
    withLetters names f rest ≠ .operand := by
  unfold withLetters
  dsimp only
  split <;> nofun

theorem ofBeginning_ne_operand_of_lookup {f : Flag} (h : names.lookup t = some f) :
    ofBeginning names t ≠ .operand := by
  intro hoperand
  have hfits := (ofBeginning_eq_operand_iff.1 hoperand).1 _ (mem_of_lookup_eq_some h)
  rw [List.isPrefixOf_iff_prefix.2 (List.takeWhile_prefix _)] at hfits
  cases hfits

theorem read_eq_operand_of_head? (h : t.head? ≠ some '-') : read names t = .operand := by
  cases t with
  | nil => rfl
  | cons c t =>
    have hc : c ≠ '-' := fun heq => h (congrArg some heq)
    simp [read, hc]

/-- A word with more behind its minus sign is an operand only if it fits no flag. -/
theorem read_minus_eq_operand_iff (names : FlagNames) (c : Char) (rest : Text) :
    read names ('-' :: c :: rest) = .operand ↔
      fitsNone names ('-' :: c :: rest) = true ∧ nameless ('-' :: c :: rest) = .operand := by
  rw [read, fitsNone]
  cases hname : names.lookup ('-' :: c :: rest) with
  | some f =>
    refine iff_of_false (by simp) fun h => ?_
    obtain ⟨hfits, hoperand⟩ := h
    by_cases hc : c = '-'
    · rw [if_pos hc] at hfits
      refine ofBeginning_ne_operand_of_lookup hname (ofBeginning_eq_operand_iff.2 ⟨?_, hoperand⟩)
      simpa using hfits
    · rw [if_neg hc] at hfits
      simp at hfits
  | none =>
    by_cases hc : c = '-'
    · simp only [if_pos hc, ofBeginning_eq_operand_iff, List.all_eq_true, Bool.not_eq_true']
    · simp only [if_neg hc]
      cases names.lookup ['-', c] with
      | some f => exact iff_of_false (withLetters_ne_operand f rest) (by simp)
      | none => simp

/-- **A word is an operand** if it has no minus sign in front or nothing behind it, or if it fits no
flag and is a negative number or a phrase. -/
theorem read_eq_operand_iff (names : FlagNames) (t : Text) :
    read names t = .operand ↔ t.head? ≠ some '-' ∨ t = ['-'] ∨
      (fitsNone names t = true ∧ (isMagnitude t.tail = true ∨ ' ' ∈ t)) := by
  by_cases hhead : t.head? = some '-'
  · obtain ⟨rest, rfl⟩ := List.head?_eq_some_iff.1 hhead
    cases rest with
    | nil => exact iff_of_true rfl (Or.inr (Or.inl rfl))
    | cons c rest =>
      have hlonger : '-' :: c :: rest ≠ ['-'] := by simp
      rw [or_iff_right (not_not_intro hhead), or_iff_right hlonger, ← nameless_eq_operand_iff]
      exact read_minus_eq_operand_iff names c rest
  · exact iff_of_true (read_eq_operand_of_head? hhead) (Or.inl hhead)

/-- Whether a word is an operand wherever it stands in front of the terminator. -/
structure IsOperand (names : FlagNames) (t : Text) : Prop where
  /-- It is not the terminator. -/
  ne_terminator : t ≠ terminator
  /-- It is read as an operand. -/
  read_eq : read names t = .operand

end Word

namespace Invocation

open Word (IsOperand terminator)

variable {names : FlagNames} {a : Arity} {p p' : Progress} {args : List Text}

/-! ## Taking operands

As long as no flag has closed the operands and there is room for more, every operand that is taken
comes to stand behind the others and nothing else changes. Only the note that no operand was taken
since the last flag is lost with the first one. -/

namespace Progress

theorem foldl_operand {operands : List (Option Text)} (hopen : p.closed = false)
    (hroom : p.operands.length + operands.length ≤ a.required + a.optional) :
    operands.foldl (fun p arg => p.operand a arg) p =
      { p with
        operands := p.operands ++ operands
        afterFlag := p.afterFlag && operands.isEmpty } := by
  induction operands generalizing p with
  | nil => simp
  | cons arg operands ih =>
    rw [List.length_cons] at hroom
    have hone : p.operand a arg =
        { p with operands := p.operands ++ [arg], afterFlag := false } := by
      rw [operand, hopen, Bool.false_or, if_neg (by rw [decide_eq_true_eq]; omega)]
    have hrest := @ih (p.operand a arg) (hone ▸ hopen)
      (by rw [hone, List.length_append, List.length_singleton]; omega)
    rw [List.foldl_cons, hrest, hone]
    simp

/-- Behind the terminator every word but a second terminator is taken as it is. -/
theorem foldl_lateOperand (hargs : ∀ arg ∈ args, arg ≠ terminator) (p : Progress) :
    args.foldl (fun p arg => p.lateOperand a arg) p =
      (args.map some).foldl (fun p arg => p.operand a arg) p := by
  induction args generalizing p with
  | nil => rfl
  | cons arg args ih =>
    obtain ⟨harg, hargs⟩ := List.forall_mem_cons.1 hargs
    rw [List.foldl_cons, List.map_cons, List.foldl_cons, ih hargs, lateOperand, if_neg harg]

theorem length_operands_operand_le (p : Progress) (arg : Option Text) :
    (p.operand a arg).operands.length ≤ p.operands.length + 1 := by
  rw [operand]
  split
  · exact Nat.le_add_right _ _
  · exact Nat.le_of_eq List.length_append

theorem length_operands_foldl_le (take : Progress → Text → Progress)
    (htake : ∀ p arg, (take p arg).operands.length ≤ p.operands.length + 1) (args : List Text)
    (p : Progress) : (args.foldl take p).operands.length ≤ p.operands.length + args.length := by
  induction args generalizing p with
  | nil => exact Nat.le_refl _
  | cons arg args ih =>
    have hone := htake p arg
    have hrest := ih (take p arg)
    rw [List.foldl_cons, List.length_cons]
    omega

theorem length_operands_terminated_le (args : List Text) (p : Progress) :
    (p.terminated a args).operands.length ≤ p.operands.length + args.length := by
  have hlate := length_operands_foldl_le (fun p arg => p.lateOperand a arg)
    fun p arg => p.length_operands_operand_le _
  unfold terminated
  split
  · exact Nat.le_add_right _ _
  · cases args with
    | nil => exact Nat.le_refl _
    | cons arg args =>
      dsimp only
      split
      · have hfirst := p.length_operands_operand_le (a := a) (some arg)
        have hrest := hlate args (p.operand a (some arg))
        rw [List.length_cons]
        omega
      · exact hlate (arg :: args) p

end Progress

/-! ## Commands with operands -/

/-- The operands in front of the first flag are taken one after the other. -/
theorem scan_append_of_isOperand (hargs : ∀ arg ∈ args, IsOperand names arg) (rest : List Text)
    (p : Progress) :
    scan names a (args ++ rest) p =
      scan names a rest ((args.map some).foldl (fun p arg => p.operand a arg) p) := by
  induction args generalizing p with
  | nil => rfl
  | cons arg args ih =>
    obtain ⟨harg, hargs⟩ := List.forall_mem_cons.1 hargs
    rw [List.cons_append, scan, if_neg harg.ne_terminator, harg.read_eq, List.map_cons,
      List.foldl_cons]
    exact ih hargs _

/-- **A command that gets as many operands as it has words has nothing but operands**: a flag gives
none, and neither does the terminator. -/
theorem isOperand_of_scan (h : scan names a args p = .ok p') :
    p'.operands.length ≤ p.operands.length + args.length ∧
      (p'.operands.length = p.operands.length + args.length →
        ∀ arg ∈ args, IsOperand names arg) := by
  induction args generalizing p with
  | nil =>
    cases h
    exact ⟨Nat.le_refl _, fun _ _ hmem => absurd hmem List.not_mem_nil⟩
  | cons arg args ih =>
    rw [scan] at h
    rw [List.length_cons]
    -- A word that gives no operand leaves too few words for the operands.
    have hgives_none (hle : p'.operands.length ≤ p.operands.length + args.length) :
        p'.operands.length ≤ p.operands.length + (args.length + 1) ∧
          (p'.operands.length = p.operands.length + (args.length + 1) →
            ∀ word ∈ arg :: args, IsOperand names word) :=
      ⟨by omega, fun heq => by omega⟩
    split at h
    · cases h
      exact hgives_none (p.length_operands_terminated_le args)
    · rename_i hterminator
      cases hword : Word.read names arg with
      | operand =>
        rw [hword] at h
        obtain ⟨hle, hall⟩ := ih h
        have hone := p.length_operands_operand_le (a := a) (some arg)
        refine ⟨by omega, fun heq => ?_⟩
        exact List.forall_mem_cons.2 ⟨⟨hterminator, hword⟩, hall (by omega)⟩
      | flags fs =>
        rw [hword] at h
        dsimp only at h
        split at h
        · exact hgives_none (ih h).1
        · cases h
      | unknown =>
        rw [hword] at h
        exact hgives_none (ih h).1
      | refused =>
        rw [hword] at h
        cases h
      | ambiguous =>
        rw [hword] at h
        cases h

/-- Whether words give some flags: there is no word and no flag, or there is one word that names one
flag, and not one that ends the program. -/
inductive GivesFlags (names : FlagNames) : List Text → List Flag → Prop where
  /-- There is no flag. -/
  | none : GivesFlags names [] []
  /-- There is one flag. -/
  | one {word : Text} {f : Flag} (hterminator : word ≠ terminator)
      (hread : Word.read names word = .flags [f]) (htake : takeFlags [] [f] = .ok [f]) :
      GivesFlags names [word] [f]

namespace GivesFlags

variable {words : List Text} {flags : List Flag}

theorem read_ne_ambiguous (h : GivesFlags names words flags) {word : Text} (hword : word ∈ words) :
    Word.read names word ≠ .ambiguous := by
  cases h with
  | none => cases hword
  | one _ hread _ =>
    rw [List.mem_singleton.1 hword, hread]
    nofun

/-- Behind the operands, the flags are taken and the operands stay. -/
theorem exists_scan_eq (h : GivesFlags names words flags) (hp : p.flags = []) :
    ∃ p', scan names a words p = .ok p' ∧ p'.operands = p.operands ∧ p'.flags = flags ∧
      p'.surplus = p.surplus := by
  cases h with
  | none => exact ⟨p, rfl, rfl, hp, rfl⟩
  | one hterminator hread htake =>
    rw [scan, if_neg hterminator, hread, hp]
    simp only [htake]
    exact ⟨_, rfl, rfl, rfl, rfl⟩

/-- In front of the operands, the flags are taken and everything else stays as at the start. -/
theorem scan_append_eq (h : GivesFlags names words flags) (ha : 0 < a.required)
    (rest : List Text) :
    scan names a (words ++ rest) .start =
      scan names a rest { Progress.start with flags := flags } := by
  cases h with
  | none => rfl
  | one hterminator hread htake =>
    have hopen : Progress.start.beforeFlag a = .start := by
      simp [Progress.start, Progress.beforeFlag, Nat.ne_of_gt ha]
    have htake' : takeFlags Progress.start.flags [_] = .ok [_] := htake
    rw [List.singleton_append, scan, if_neg hterminator, hread]
    simp only [htake', hopen]

end GivesFlags

theorem hasAmbiguity_eq_false
    (h : ∀ arg ∈ args.takeWhile (· ≠ terminator), Word.read names arg ≠ .ambiguous) :
    hasAmbiguity names args = false := by
  rw [hasAmbiguity, List.any_eq_false]
  exact fun arg harg => by simpa using h arg harg

theorem readCommand_of_scan (hplain : hasAmbiguity names args = false)
    (hscan : scan names a args .start = .ok p) (hsurplus : p.surplus = false)
    (henough : a.required ≤ p.operands.length) :
    readCommand names a args = .ok (p.operands, p.flags) := by
  have htaken : ¬ (p.surplus || decide (p.operands.length < a.required)) = true := by
    rw [hsurplus, Bool.false_or, decide_eq_true_eq]
    exact Nat.not_lt_of_ge henough
  rw [readCommand, hplain, hscan]
  exact if_neg htaken

/-- **Operands in front of the flags** are all taken, if the command has room for them. -/
theorem readCommand_of_isOperand {words : List Text} {flags : List Flag}
    (hargs : ∀ arg ∈ args, IsOperand names arg) (hleast : a.required ≤ args.length)
    (hmost : args.length ≤ a.required + a.optional) (hflags : GivesFlags names words flags) :
    readCommand names a (args ++ words) = .ok (args.map some, flags) := by
  have hplain : hasAmbiguity names (args ++ words) = false := by
    refine hasAmbiguity_eq_false fun word hword => ?_
    rcases List.mem_append.1 (List.takeWhile_subset _ hword) with hmem | hmem
    · rw [(hargs word hmem).read_eq]
      nofun
    · exact hflags.read_ne_ambiguous hmem
  have htaken := @Progress.foldl_operand a .start (args.map some) rfl
    (by simpa [Progress.start] using hmost)
  obtain ⟨p, hscan, hoperands, hp, hsurplus⟩ :=
    @GivesFlags.exists_scan_eq names a
      ((args.map some).foldl (fun p arg => p.operand a arg) .start) _ _ hflags
      (by rw [htaken]; rfl)
  rw [htaken] at hoperands hsurplus
  have hall : p.operands = args.map some := hoperands
  rw [← scan_append_of_isOperand hargs] at hscan
  rw [readCommand_of_scan hplain hscan hsurplus (by rwa [hall, List.length_map]), hall, hp]

/-- **Operands behind the terminator** are all taken, whatever they look like, unless one of them
but the first is a terminator itself. -/
theorem readCommand_of_terminator {words : List Text} {flags : List Flag} {arg : Text}
    (hargs : ∀ arg ∈ args, arg ≠ terminator) (hleast : a.required ≤ args.length + 1)
    (hmost : args.length + 1 ≤ a.required + a.optional) (ha : 0 < a.required)
    (hflags : GivesFlags names words flags) :
    readCommand names a (words ++ terminator :: arg :: args) =
      .ok ((arg :: args).map some, flags) := by
  have hplain : hasAmbiguity names (words ++ terminator :: arg :: args) = false := by
    refine hasAmbiguity_eq_false fun word hword => ?_
    cases hflags with
    | none => simp at hword
    | one hterminator hread _ =>
      obtain rfl : word = _ := by simpa [hterminator] using hword
      rw [hread]
      nofun
  have htaken := @Progress.foldl_operand a { Progress.start with flags := flags }
    ((arg :: args).map some) rfl (by simpa [Progress.start] using hmost)
  have hscan : scan names a (words ++ terminator :: arg :: args) .start =
      .ok (((arg :: args).map some).foldl (fun p arg => p.operand a arg)
        { Progress.start with flags := flags }) := by
    rw [hflags.scan_append_eq ha, scan, if_pos rfl, List.map_cons, List.foldl_cons,
      ← Progress.foldl_lateOperand hargs]
    rfl
  rw [htaken] at hscan
  exact readCommand_of_scan hplain hscan rfl (by simpa [Progress.start] using hleast)

/-- Where a command has as many operands as words, each of its words is an operand. -/
theorem isOperand_of_readCommand {operands : List (Option Text)} {flags : List Flag}
    (h : readCommand names a args = .ok (operands, flags))
    (hlength : operands.length = args.length) : ∀ arg ∈ args, IsOperand names arg := by
  rw [readCommand] at h
  split at h
  · cases h
  · cases hscan : scan names a args .start with
    | error exit =>
      rw [hscan] at h
      cases h
    | ok p =>
      simp only [hscan] at h
      split at h
      · cases h
      · cases h
        exact (isOperand_of_scan hscan).2 (by simpa [Progress.start] using hlength)

end Invocation

end GrammarTree
