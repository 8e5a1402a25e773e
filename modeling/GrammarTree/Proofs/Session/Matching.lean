import GrammarTree.Proofs.Session.Effect

/-!
# Choosing by a pattern

An alternative can be chosen by a pattern in place of its position. The search runs over the
alternatives together with their positions, and when it does not find exactly one match, a second
run over the alternatives alone counts them. This file proves that the two runs agree: what a choice
by a pattern does is told by the positions of the matches, and two equal alternatives are two of
them.

The search for the only match is stated here as a loop too, which keeps the one match it has met and
gives up at the second. It finds what the definition finds, and so nothing in the file depends on
how far the search goes on.

What is here:

* `onlyMatchFrom`, the loop, with `onlyMatchFrom_none`: it finds the only match;
* `Session.matchingPositions`, the positions of the matches;
* `Session.chooseMatching_eq`: a choice by a pattern in terms of these positions;
* `Session.chooseMatching_by_positions`, which tells the choice at the one position that matches
  from the errors for none and for several.
-/

set_option autoImplicit false

namespace GrammarTree

/-! ## The only match

The only match of a test is defined by all matches, and it can be found without them: a search that
keeps the match it has met may give up at the second one. -/

/-- Searches for the only match where one match was found at most. -/
def onlyMatchFrom {α : Type} (test : α → Bool) : Option α → List α → Option α
  | found, [] => found
  | found, x :: xs =>
    if test x then if found.isSome then none else onlyMatchFrom test (some x) xs
    else onlyMatchFrom test found xs

theorem onlyMatchFrom_eq_some_iff {α : Type} {test : α → Bool} {found : Option α} {xs : List α}
    {x : α} :
    onlyMatchFrom test found xs = some x ↔ found.toList ++ xs.filter test = [x] := by
  induction xs generalizing found with
  | nil => rw [onlyMatchFrom, List.filter_nil, List.append_nil, Option.toList_eq_singleton_iff]
  | cons y ys ih =>
    rw [onlyMatchFrom, List.filter_cons]
    split
    · cases found with
      | none => exact ih
      | some z => simp
    · exact ih

/-- **The search that gives up at the second match finds the only match**, and it finds nothing
where no element or several match. -/
theorem onlyMatchFrom_none {α : Type} (test : α → Bool) (xs : List α) :
    onlyMatchFrom test none xs = onlyMatch? test xs :=
  Option.ext fun _ => onlyMatchFrom_eq_some_iff.trans onlyMatch?_eq_some_iff.symm

/-! ## Numbered elements

The numbers are filtered together with their elements, and a filter of the numbers alone has the
same result: a number passes if the element at its place does. -/

/-- The numbers of the elements that pass a test, where the numbers start at `first`. -/
theorem map_snd_filter_zipIdx {α : Type} (test : α → Bool) (xs : List α) (first : Nat) :
    ((xs.zipIdx first).filter fun item => test item.1).map Prod.snd =
      (List.range' first xs.length).filter fun i => (xs[i - first]?).any test := by
  induction xs generalizing first with
  | nil => rfl
  | cons x xs ih =>
    have hlater : (List.range' (first + 1) xs.length).filter
          (fun i => ((x :: xs)[i - first]?).any test) =
        (List.range' (first + 1) xs.length).filter
          fun i => (xs[i - (first + 1)]?).any test := by
      refine List.filter_congr fun i hi => ?_
      have hshift : i - first = i - (first + 1) + 1 := by
        have hfirst := (List.mem_range'_1.1 hi).1
        omega
      rw [hshift, List.getElem?_cons_succ]
    have hhead : ((x :: xs)[first - first]?).any test = test x := by
      rw [Nat.sub_self, List.getElem?_cons_zero, Option.any_some]
    rw [List.zipIdx_cons, List.length_cons, List.range'_succ, List.filter_cons, List.filter_cons,
      hhead, hlater, ← ih (first + 1)]
    cases test x <;> rfl

theorem length_filter_zipIdx {α : Type} (test : α → Bool) (xs : List α) (first : Nat) :
    ((xs.zipIdx first).filter fun item => test item.1).length = xs.countP test := by
  have hfst : test ∘ Prod.fst = fun item : α × Nat => test item.1 := rfl
  rw [← List.countP_eq_length_filter, ← hfst, ← List.countP_map, List.zipIdx_map_fst]

namespace Session

variable {s : Session} {pattern : Text}

/-! ## The positions of the matches -/

/-- The positions, counted from 1, at which the alternative on offer matches a pattern. -/
def matchingPositions (s : Session) (pattern : Text) : List Nat :=
  (List.range' 1 s.alternatives.length).filter fun i =>
    (s.alternatives[i - 1]?).any (matchesPattern pattern)

theorem mem_matchingPositions {i : Nat} :
    i ∈ s.matchingPositions pattern ↔
      1 ≤ i ∧ ∃ a, s.alternatives[i - 1]? = some a ∧ matchesPattern pattern a = true := by
  rw [matchingPositions, List.mem_filter, List.mem_range'_1, Option.any_eq_true]
  constructor
  · rintro ⟨⟨hi, -⟩, hmatch⟩
    exact ⟨hi, hmatch⟩
  · rintro ⟨hi, a, ha, hmatch⟩
    have hlt := (List.getElem?_eq_some_iff.1 ha).1
    exact ⟨⟨hi, by omega⟩, a, ha, hmatch⟩

/-- The matches among the numbered alternatives stand at these positions. -/
theorem matchingPositions_eq (s : Session) (pattern : Text) :
    s.matchingPositions pattern = ((s.alternatives.zipIdx 1).filter fun item =>
      matchesPattern pattern item.1).map Prod.snd :=
  (map_snd_filter_zipIdx (matchesPattern pattern) s.alternatives 1).symm

/-- Without the positions there are as many matches. -/
theorem length_matchingPositions (s : Session) (pattern : Text) :
    (s.matchingPositions pattern).length = s.alternatives.countP (matchesPattern pattern) := by
  rw [matchingPositions_eq, List.length_map, length_filter_zipIdx]

/-- The selection offers an alternative that matches at each of the positions. -/
theorem exists_offeredAt?_of_mem {i : Nat} (h : i ∈ s.matchingPositions pattern) :
    ∃ a, s.offeredAt? (some (i : Int)) = some a ∧ matchesPattern pattern a = true := by
  obtain ⟨hi, a, ha, hmatch⟩ := mem_matchingPositions.1 h
  refine ⟨a, ?_, hmatch⟩
  rw [alternatives] at ha
  cases hselection : s.selection with
  | none =>
    rw [hselection] at ha
    cases ha
  | some selection =>
    rw [hselection] at ha
    have hshift : ((i : Int) - 1).toNat = i - 1 := by omega
    rw [offeredAt?, hselection, Option.bind_some, alternativeAt?, Option.getD_some,
      if_neg (by omega), hshift, ha]

/-! ## What a pattern chooses -/

/-- A choice by a pattern is the choice at the one position that matches. -/
theorem chooseMatching_eq (s : Session) (pattern : Text) :
    chooseMatching pattern s = match s.matchingPositions pattern with
      | [] => .error (.selection (SelectionFault.noMatch pattern).reason) s
      | [i] => choose (some (i : Int)) s
      | positions =>
        .error (.selection (SelectionFault.severalMatches pattern positions.length).reason) s := by
  have hcount := length_matchingPositions s pattern
  rw [matchingPositions_eq] at hcount ⊢
  rw [chooseMatching, Edit.get_bind_apply, onlyMatch?, ← hcount]
  generalize (s.alternatives.zipIdx 1).filter (fun item => matchesPattern pattern item.1) = found
  cases found with
  | nil => rfl
  | cons item others => cases others <;> rfl

theorem matchingPositions_of_idle (h : s.selection = none) : s.matchingPositions pattern = [] := by
  rw [matchingPositions, alternatives, h]
  rfl

/-- **A pattern chooses what it alone matches.** If one alternative on offer matches, choosing by
the pattern is choosing at its position, which is in range; if none or several of them match, the
error says so and how many, and nothing changes. Outside a selection there is nothing to match. -/
theorem chooseMatching_by_positions (s : Session) (pattern : Text) :
    (s.isSelecting = true →
      (∀ i, s.matchingPositions pattern = [i] →
        chooseMatching pattern s = choose (some (i : Int)) s ∧
          ∃ a, s.offeredAt? (some (i : Int)) = some a ∧ matchesPattern pattern a = true) ∧
      (s.matchingPositions pattern = [] →
        chooseMatching pattern s =
          .error (.selection ('\'' :: pattern ++ "' matches no alternative".toList)) s) ∧
      ∀ m, 2 ≤ m → (s.matchingPositions pattern).length = m →
        chooseMatching pattern s =
          .error (.selection ('\'' :: pattern ++ "' matches ".toList ++ Text.ofNat m ++
            " alternatives, expected one".toList)) s) ∧
    (s.isSelecting = false →
      chooseMatching pattern s =
        .error (.selection ('\'' :: pattern ++ "' matches no alternative".toList)) s) := by
  have hnone : s.matchingPositions pattern = [] → chooseMatching pattern s =
      .error (.selection ('\'' :: pattern ++ "' matches no alternative".toList)) s := by
    intro h
    rw [chooseMatching_eq, h]
    rfl
  refine ⟨fun _ => ⟨fun i hi => ⟨?_, ?_⟩, hnone, fun m hm hlength => ?_⟩, fun hidle => ?_⟩
  · rw [chooseMatching_eq, hi]
  · refine exists_offeredAt?_of_mem ?_
    rw [hi]
    exact List.mem_singleton_self i
  · rw [chooseMatching_eq]
    match hpositions : s.matchingPositions pattern with
    | [] | [_] =>
      rw [hpositions] at hlength
      simp only [List.length_nil, List.length_singleton] at hlength
      omega
    | i :: j :: positions =>
      rw [← hlength, hpositions]
      rfl
  · rw [isSelecting, Option.isSome_eq_false_iff, Option.isNone_iff_eq_none] at hidle
    exact hnone (matchingPositions_of_idle hidle)

/-- A session that is choosing among three alternatives, two of which are equal. -/
def choosingAmongEqual : Session :=
  afterAll [.newRoot 1, .beginSelection (some 0)] (start "<s> ::= x | y | x".toList)

/-- The alternative that is there once is chosen at its position, the one that is there twice is
reported as two matches, and after the choice there is nothing to match. -/
theorem chooseMatching_by_positions_of_equal_alternatives :
    choosingAmongEqual.isSelecting = true ∧
      chooseMatching "y".toList choosingAmongEqual = choose (some 2) choosingAmongEqual ∧
      chooseMatching "\"x\"".toList choosingAmongEqual =
        .error (.selection "'\"x\"' matches 2 alternatives, expected one".toList)
          choosingAmongEqual ∧
      chooseMatching "z".toList choosingAmongEqual =
        .error (.selection "'z' matches no alternative".toList) choosingAmongEqual ∧
      chooseMatching "x".toList (start []) =
        .error (.selection "'x' matches no alternative".toList) (start []) := by
  have hselecting : choosingAmongEqual.isSelecting = true := by decide +kernel
  obtain ⟨hone, -, -⟩ := (chooseMatching_by_positions choosingAmongEqual "y".toList).1 hselecting
  obtain ⟨-, -, hseveral⟩ :=
    (chooseMatching_by_positions choosingAmongEqual "\"x\"".toList).1 hselecting
  obtain ⟨-, hnone, -⟩ := (chooseMatching_by_positions choosingAmongEqual "z".toList).1 hselecting
  refine ⟨hselecting, (hone 2 (by decide +kernel)).1, ?_, hnone (by decide +kernel), ?_⟩
  · exact hseveral 2 (Nat.le_refl 2) (by decide +kernel)
  · exact (chooseMatching_by_positions (start []) "x".toList).2 rfl

end Session

end GrammarTree
