import GrammarTree.Proofs.Derivation.Path
import GrammarTree.Proofs.Grammar.Merging
import Mathlib.Data.List.Dedup

/-!
# Walks back through the rules

The search of a chain is a walk. It starts at the seed and steps back, from a value to the one
producer of it that it has not visited, until it is at the target or cannot go on. The rules may be
recursive, and nothing in a single turn of the walk says that it comes to an end. This file proves
that it does: a walk visits no name twice and visits only names of rules.

A walk is stated here by what it has visited, and the search by what is left. The names of the rules
that were not visited are the names that are unused, and with this correspondence a turn of one is a
turn of the other. The seed does not count as visited. It is a value like the others, and a walk may
come back to it once, if it is the symbol of a rule.

What is here:

* `Walk`, the walks, turn by turn (`Walk.turn`), and `Walk.Ends`, how they end;
* `Walk.nodup`, `Walk.mem_owners` and `Walk.length_le`: what a walk has visited;
* `exists_walk`: the search is such a walk, from its start to its end;
* `searchChain_within_names`: the number of steps, and what it means for chains and paths.
-/

set_option autoImplicit false

namespace GrammarTree

/-! ## Walks -/

namespace Walk

/-- What a walk does at a value. -/
inductive Turn where
  /-- The value is the target. -/
  | arrive
  /-- The walk cannot go on. -/
  | stop (fault : PathFault)
  /-- The walk steps back to a producer. -/
  | step (next : Text)

/-- The turn of a walk at a value, when it has visited the given names. -/
def turn (i : Index) (target : Text) (visited : List Text) (value : Text) : Turn :=
  if value = target then .arrive
  else if (i.producers value).toList = [] then .stop (.noProducer value)
  else
    match (i.producers value).toList.filter fun name => !visited.contains name with
    | [next] => .step next
    | candidates => .stop (.severalProducers value candidates)

/-- Where a walk is: at the name that it visited last, or still at its seed. -/
def place (seed : Text) (visited : List Text) : Text := visited.headD seed

end Walk

open Walk (turn place)

/-- A walk from a seed towards a target, by the names that it has visited, the last one first. The
seed counts as visited only when the walk comes back to it. -/
inductive Walk (i : Index) (target seed : Text) : List Text → Prop where
  /-- The walk starts at the seed. -/
  | start : Walk i target seed []
  /-- The walk takes a step. -/
  | step {visited : List Text} {next : Text} (h : Walk i target seed visited)
    (hstep : turn i target visited (place seed visited) = .step next) :
    Walk i target seed (next :: visited)

/-- How a walk ends that has visited the given names: with these names in the order of the walk, or
with a fault. -/
inductive Walk.Ends (i : Index) (target seed : Text) (visited : List Text) :
    Except PathFault (List Text) → Prop where
  /-- The walk is at the target. -/
  | arrived (h : turn i target visited (place seed visited) = .arrive) :
    Ends i target seed visited (.ok visited.reverse)
  /-- The walk cannot go on. -/
  | stopped {fault : PathFault} (h : turn i target visited (place seed visited) = .stop fault) :
    Ends i target seed visited (.error fault)

variable {i : Index} {target seed value next : Text} {visited : List Text}

/-! ## Turns -/

namespace Walk

theorem eq_target_of_arrive (h : turn i target visited value = .arrive) : value = target := by
  unfold turn at h
  split at h
  · assumption
  · split at h
    · cases h
    · split at h <;> cases h

theorem mem_fresh {x : Text} :
    x ∈ (i.producers value).toList.filter (fun name => !visited.contains name) ↔
      x ∈ i.producers value ∧ x ∉ visited := by
  simp [NameSet.mem_toList]

/-- A walk steps on from any value but the target, to the only producer that it has not visited. -/
theorem of_turn_step (h : turn i target visited value = .step next) :
    value ≠ target ∧ ∀ x, x ∈ i.producers value ∧ x ∉ visited ↔ x = next := by
  unfold turn at h
  split at h
  · cases h
  · rename_i hne
    split at h
    · cases h
    · split at h
      · rename_i hfresh
        cases h
        refine ⟨hne, fun x => ?_⟩
        rw [← List.mem_singleton, ← hfresh, mem_fresh]
      · cases h

theorem fresh_of_step (h : turn i target visited value = .step next) :
    next ∈ i.producers value ∧ next ∉ visited :=
  ((of_turn_step h).2 next).2 rfl

/-- A walk cannot go on from a value that nothing produces, or of which none or several of the
producers were not visited. -/
theorem of_turn_stop {fault : PathFault} (h : turn i target visited value = .stop fault) :
    value ≠ target ∧
      ((fault = .noProducer value ∧ ∀ x, x ∉ i.producers value) ∨
        ∃ candidates, fault = .severalProducers value candidates ∧
          (∃ x, x ∈ i.producers value) ∧ candidates.Nodup ∧ candidates.length ≠ 1 ∧
          ∀ x, x ∈ candidates ↔ x ∈ i.producers value ∧ x ∉ visited) := by
  unfold turn at h
  split at h
  · cases h
  · rename_i hne
    refine ⟨hne, ?_⟩
    split at h
    · rename_i hnone
      cases h
      exact Or.inl ⟨rfl, List.eq_nil_iff_forall_not_mem.1 hnone⟩
    · rename_i hsome
      split at h
      · cases h
      · rename_i hseveral
        cases h
        refine Or.inr ⟨_, rfl, List.exists_mem_of_ne_nil _ hsome,
          (i.producers value).nodup_toList.filter _, fun hlength => ?_, fun x => ?_⟩
        · obtain ⟨next, hnext⟩ := List.length_eq_one_iff.1 hlength
          exact hseveral next hnext
        · exact mem_fresh

end Walk

/-- One turn of the search, when the unused producers are those that were not visited. -/
theorem Chain.climb_eq_turn {unused : List Text}
    (h : ∀ x ∈ i.producers value, x ∈ unused ↔ x ∉ visited) :
    climb i target unused value =
      match turn i target visited value with
      | .arrive => .ok []
      | .stop fault => .error fault
      | .step next => (climb i target (without next unused) next).map (next :: ·) := by
  have hfresh : (i.producers value).toList.filter (unused.contains ·) =
      (i.producers value).toList.filter fun name => !visited.contains name :=
    List.filter_congr fun x hx => by
      rw [Bool.eq_iff_iff, List.contains_iff_mem, h x hx]
      simp
  rw [climb_eq, turn, hfresh]
  by_cases hvalue : value = target
  · rw [if_pos hvalue, if_pos hvalue]
  rw [if_neg hvalue, if_neg hvalue]
  by_cases hnone : (i.producers value).toList = []
  · rw [if_pos hnone, if_pos hnone]
  rw [if_neg hnone, if_neg hnone]
  generalize ((i.producers value).toList.filter fun name => !visited.contains name) = fresh
  match fresh with
  | [] => rfl
  | [next] =>
    dsimp only
    cases climb i target (without next unused) next <;> rfl
  | _ :: _ :: _ => rfl

/-! ## What a walk has visited

Each turn visits one name that was not visited before, and each is the symbol of a rule. So the
number of different symbols bounds the number of turns. -/

namespace Walk

/-- A walk visits no name twice. -/
theorem nodup (h : Walk i target seed visited) : visited.Nodup := by
  induction h with
  | start => exact List.nodup_nil
  | step h hstep ih => exact List.nodup_cons.2 ⟨(fresh_of_step hstep).2, ih⟩

/-- A walk visits names of rules only. -/
theorem mem_owners {rules : List Rule} (h : Walk (.ofRules rules) target seed visited) :
    ∀ x ∈ visited, x ∈ (Index.ofRules rules).owners := by
  induction h with
  | start => exact fun x hx => absurd hx List.not_mem_nil
  | step h hstep ih =>
    have hnext := Index.mem_owners_of_mem_producers (fresh_of_step hstep).1
    exact List.forall_mem_cons.2 ⟨hnext, ih⟩

/-- A walk takes at most as many steps as the rules have different names. -/
theorem length_le {rules : List Rule} (h : Walk (.ofRules rules) target seed visited) :
    visited.length ≤ (rules.map Rule.symbol).dedup.length :=
  h.nodup.length_le_of_subset fun x hx => List.mem_dedup.2 (h.mem_owners x hx)

end Walk

/-! ## The search as a walk

A walk with the search that goes on from it is one walk to the end. The induction is along the
search, and the walk so far is what it generalizes over. -/

/-- From any place of a walk, the search goes on to an end of the walk. -/
theorem exists_walk_of_climb {rules : List Rule} {unused : List Text}
    (h : Walk (.ofRules rules) target seed visited)
    (hunused : ∀ x, x ∈ unused ↔ x ∈ (Index.ofRules rules).owners ∧ x ∉ visited) :
    ∃ visited', Walk (.ofRules rules) target seed visited' ∧
      Walk.Ends (.ofRules rules) target seed visited'
        ((Chain.climb (.ofRules rules) target unused (place seed visited)).map
          (visited.reverse ++ ·)) := by
  induction hn : unused.length using Nat.strong_induction_on generalizing unused visited with
  | h n ih =>
    have hfresh : ∀ x ∈ (Index.ofRules rules).producers (place seed visited),
        x ∈ unused ↔ x ∉ visited := fun x hx =>
      (hunused x).trans (and_iff_right (Index.mem_owners_of_mem_producers hx))
    rw [Chain.climb_eq_turn hfresh]
    cases hturn : turn (.ofRules rules) target visited (place seed visited) with
    | arrive => exact ⟨visited, h, by simpa [Except.map] using Walk.Ends.arrived hturn⟩
    | stop fault => exact ⟨visited, h, .stopped hturn⟩
    | step next =>
      have hnext := Walk.fresh_of_step hturn
      have hmem : next ∈ unused := (hfresh next hnext.1).2 hnext.2
      have hleft : ∀ x, x ∈ Chain.without next unused ↔
          x ∈ (Index.ofRules rules).owners ∧ x ∉ next :: visited := fun x => by
        rw [Chain.mem_without, hunused, List.mem_cons, not_or, and_assoc, and_comm (b := x ≠ next)]
      obtain ⟨visited', hwalk, hends⟩ :=
        ih _ (hn ▸ Chain.length_without_lt hmem) (h.step hturn) hleft rfl
      have hresult : ∀ result : Except PathFault (List Text),
          result.map ((next :: visited).reverse ++ ·) =
            (result.map (next :: ·)).map (visited.reverse ++ ·) := fun result => by
        cases result <;> simp [Except.map]
      exact ⟨visited', hwalk, hresult _ ▸ hends⟩

/-- The search of a chain walks from its seed to an end of the walk. -/
theorem exists_walk {rules : List Rule} {pattern : Text}
    (h : seeds (.ofRules rules) pattern = [seed]) (target : Text) :
    ∃ visited, Walk (.ofRules rules) target seed visited ∧
      Walk.Ends (.ofRules rules) target seed visited
        ((searchChain (.ofRules rules) target pattern).map Chain.above) := by
  have hstart : Walk (.ofRules rules) target seed [] := .start
  have hunused : ∀ x, x ∈ (Index.ofRules rules).owners ↔
      x ∈ (Index.ofRules rules).owners ∧ x ∉ ([] : List Text) := by simp
  obtain ⟨visited, hwalk, hends⟩ := exists_walk_of_climb hstart hunused
  have hplace : place seed [] = seed := rfl
  rw [hplace] at hends
  refine ⟨visited, hwalk, ?_⟩
  rw [searchChain_of_seeds h]
  cases hclimb : Chain.climb (.ofRules rules) target (Index.ofRules rules).owners seed with
  | ok above => simpa [hclimb, Except.map] using hends
  | error fault => simpa [hclimb, Except.map] using hends

/-- A chain that is found was walked along. -/
theorem exists_walk_of_searchChain {rules : List Rule} {pattern : Text} {c : Chain}
    (h : searchChain (.ofRules rules) target pattern = .ok c) :
    ∃ visited, Walk (.ofRules rules) target c.seed visited ∧ c.above = visited.reverse ∧
      place c.seed visited = target := by
  obtain ⟨visited, hwalk, hends⟩ := exists_walk (searchChain_eq_ok h).1 target
  rw [h] at hends
  generalize hresult : Except.map Chain.above (Except.ok c) = result at hends
  cases hends with
  | arrived hturn => exact ⟨visited, hwalk, Except.ok.inj hresult, Walk.eq_target_of_arrive hturn⟩
  | stopped hturn => cases hresult

/-- A fault behind the seed is where a walk could not go on. -/
theorem exists_walk_of_fault {rules : List Rule} {pattern : Text} {fault : PathFault}
    (hseeds : seeds (.ofRules rules) pattern = [seed])
    (h : searchChain (.ofRules rules) target pattern = .error fault) :
    ∃ visited, Walk (.ofRules rules) target seed visited ∧
      turn (.ofRules rules) target visited (place seed visited) = .stop fault := by
  obtain ⟨visited, hwalk, hends⟩ := exists_walk hseeds target
  rw [h] at hends
  generalize hresult : Except.map Chain.above (Except.error fault) = result at hends
  cases hends with
  | arrived hturn => cases hresult
  | stopped hturn => exact ⟨visited, hwalk, Except.error.inj hresult ▸ hturn⟩

/-- A path is grown along a chain that was found before. -/
theorem Derivation.exists_chainFrom_of_growPath {g g' : Derivation} {source : NodeId}
    {pattern : Text} {r : Growth} (h : growPath i source pattern g = .ok r g') :
    ∃ chain, g.chainFrom i source pattern = .ok chain := by
  simp only [growPath, Edit.bind_apply, Edit.get_apply] at h
  cases hchain : g.chainFrom i source pattern with
  | ok chain => exact ⟨chain, rfl⟩
  | error e =>
    rw [hchain] at h
    cases h

/-- **The search of a chain comes to an end.** Whatever cycles the rules have, its walk takes at
most as many steps as there are different names, and the result is how the walk ends. So a chain has
at most that many values behind its seed, all of them symbols of rules, and a node has a path only
if its label is the symbol of a rule. -/
theorem searchChain_within_names (rules : List Rule) (target pattern : Text) :
    (∀ seed visited, Walk (.ofRules rules) target seed visited →
      visited.length ≤ (rules.map Rule.symbol).dedup.length) ∧
    (∀ seed, seeds (.ofRules rules) pattern = [seed] →
      ∃ visited, Walk (.ofRules rules) target seed visited ∧
        Walk.Ends (.ofRules rules) target seed visited
          ((searchChain (.ofRules rules) target pattern).map Chain.above)) ∧
    (∀ c, searchChain (.ofRules rules) target pattern = .ok c →
      c.above.length ≤ (rules.map Rule.symbol).dedup.length ∧
        ∀ value ∈ c.above, ∃ r ∈ rules, r.symbol = value) ∧
    ∀ (g g' : Derivation) (source : NodeId) (growth : Growth),
      Derivation.growPath (.ofRules rules) source pattern g = .ok growth g' →
        ∃ label, g.label? source = some label ∧ ∃ r ∈ rules, r.symbol = label := by
  have hsymbol : ∀ {x}, x ∈ (Index.ofRules rules).owners → ∃ r ∈ rules, r.symbol = x :=
    List.mem_map.1
  refine ⟨fun seed visited h => h.length_le, fun seed h => exists_walk h target, fun c h => ?_,
    fun g g' source growth h => ?_⟩
  · obtain ⟨visited, hwalk, habove, -⟩ := exists_walk_of_searchChain h
    rw [habove, List.length_reverse]
    exact ⟨hwalk.length_le, fun value hvalue =>
      hsymbol (hwalk.mem_owners value (List.mem_reverse.1 hvalue))⟩
  · obtain ⟨chain, hchain⟩ := Derivation.exists_chainFrom_of_growPath h
    obtain ⟨label, hlabel, hsearch, hne⟩ := Derivation.chainFrom_eq_ok hchain
    obtain ⟨visited, hwalk, habove, hplace⟩ := exists_walk_of_searchChain hsearch
    refine ⟨label, hlabel, hsymbol (hwalk.mem_owners label ?_)⟩
    cases visited with
    | nil => exact absurd habove hne
    | cons next visited => exact hplace ▸ List.mem_cons_self ..

/-- Rules of two names that produce each other. -/
def mutualRules : List Rule := Grammar.rules "<a> ::= <b> | x\n<b> ::= <a>".toList

/-- A walk that does not meet its target goes round the cycle once, which uses up both names. One of
them is the label of a node from which there is a path. -/
theorem searchChain_within_names_of_mutualRules :
    (∃ visited, Walk (.ofRules mutualRules) "<z>".toList "x".toList visited ∧
      visited.length ≤ (mutualRules.map Rule.symbol).dedup.length ∧
      Walk.Ends (.ofRules mutualRules) "<z>".toList "x".toList visited
        (.error (.severalProducers "<b>".toList []))) ∧
      (mutualRules.map Rule.symbol).dedup.length = 2 ∧
      ∃ g growth g', Derivation.growPath (.ofRules mutualRules) 0 "x".toList g = .ok growth g' ∧
        ∃ label, g.label? 0 = some label ∧ ∃ r ∈ mutualRules, r.symbol = label := by
  obtain ⟨hlength, hwalks, -, hsource⟩ :=
    searchChain_within_names mutualRules "<z>".toList "x".toList
  have hseeds : seeds (.ofRules mutualRules) "x".toList = ["x".toList] := by decide +kernel
  have hfault : searchChain (.ofRules mutualRules) "<z>".toList "x".toList =
      .error (.severalProducers "<b>".toList []) := by decide +kernel
  obtain ⟨visited, hwalk, hends⟩ := hwalks "x".toList hseeds
  rw [hfault] at hends
  refine ⟨⟨visited, hwalk, hlength _ visited hwalk, hends⟩, by decide +kernel, ?_⟩
  have hg : (Derivation.play [.newNode "<b>".toList] .empty).Reachable := ⟨_, rfl⟩
  have hchain : (Derivation.play [.newNode "<b>".toList] .empty).chainFrom
      (.ofRules mutualRules) 0 "x".toList =
        .ok ⟨"x".toList, "x".toList, ["<a>".toList, "<b>".toList]⟩ := by decide +kernel
  have hgrow := Derivation.growPath_eq hg.isForest (.ofRules mutualRules) 0 "x".toList
  rw [hchain] at hgrow
  exact ⟨_, _, _, hgrow, hsource _ _ 0 _ hgrow⟩

end GrammarTree
