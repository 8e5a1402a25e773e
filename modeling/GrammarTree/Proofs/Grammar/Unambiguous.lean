import GrammarTree.Proofs.Grammar.Seeds
import GrammarTree.Proofs.Grammar.Walk
import Mathlib.Logic.Relation

/-!
# Searches where nothing is ambiguous

Where every value on the way back from a seed has at most one producer, there is only one way to go.
A walk then comes upon every value that it can come upon at all: that it visits no name twice cuts
off nothing, not even when it runs round a cycle or comes back to its seed. This file proves that
the search is complete on such rules, and which fault it has when the target lies elsewhere.

What can be reached is stated with the reflexive and transitive closure of stepping back, and does
not mention the walk. A walk that has stopped short of the target has gone on from everything that
it has seen, except from the place where it is, and all producers of that place were visited. So
what it has seen is closed under stepping back and holds everything that can be reached; since the
target was not seen, it cannot be reached.

What is here:

* `Index.IsProducedBy`, one step back, and `Index.IsUnambiguousFrom`, which says that there is no
  choice on the way back from a seed;
* `Walk.left_behind` and `Walk.mem_of_leadsTo`: a walk that has stopped has seen everything;
* `searchChain_complete`: the target is found if it can be reached, and else the walk stops at the
  end of the way or on a cycle.
-/

set_option autoImplicit false

namespace GrammarTree

open Relation (ReflTransGen TransGen)

namespace Index

/-- Whether a value is produced by the rules of a symbol. -/
def IsProducedBy (i : Index) (value name : Text) : Prop := name ∈ i.producers value

/-- Whether any number of steps back leads from a value to another one. -/
abbrev LeadsTo (i : Index) : Text → Text → Prop := ReflTransGen i.IsProducedBy

/-- Whether some steps back lead from a value to itself. -/
def IsOnCycle (i : Index) (value : Text) : Prop := TransGen i.IsProducedBy value value

/-- Whether a seed and all values that it leads to have at most one producer. -/
def IsUnambiguousFrom (i : Index) (seed : Text) : Prop :=
  ∀ value, i.LeadsTo seed value →
    ∀ name ∈ i.producers value, ∀ other ∈ i.producers value, name = other

end Index

variable {i : Index} {target seed value : Text} {visited : List Text}

/-! ## What a walk has seen -/

namespace Walk

/-- Everything that a walk has seen leads to the place where it is. -/
theorem leadsTo_place (h : Walk i target seed visited) :
    ∀ x ∈ seed :: visited, i.LeadsTo x (place seed visited) := by
  induction h with
  | start =>
    intro x hx
    obtain rfl := List.mem_singleton.1 hx
    exact .refl
  | @step visited next h hstep ih =>
    have hnext := (fresh_of_step hstep).1
    intro x hx
    rcases List.mem_cons.1 hx with rfl | hx
    · exact (ih _ (List.mem_cons_self ..)).tail hnext
    · rcases List.mem_cons.1 hx with rfl | hx
      · exact .refl
      · exact (ih _ (List.mem_cons_of_mem _ hx)).tail hnext

/-- A walk has gone on from everything that it has seen but the place where it is. -/
theorem left_behind (h : Walk i target seed visited) :
    ∀ x ∈ seed :: visited, x = place seed visited ∨
      (x ≠ target ∧ ∃ y ∈ visited, y ∈ i.producers x) := by
  induction h with
  | start => exact fun x hx => Or.inl (List.mem_singleton.1 hx)
  | @step visited next h hstep ih =>
    intro x hx
    by_cases hxnext : x = next
    · exact Or.inl hxnext
    refine Or.inr ?_
    have hseen : x ∈ seed :: visited := by
      simpa [hxnext] using hx
    rcases ih x hseen with rfl | ⟨hxtarget, y, hy, hproduces⟩
    · exact ⟨(of_turn_step hstep).1, next, List.mem_cons_self .., (fresh_of_step hstep).1⟩
    · exact ⟨hxtarget, y, List.mem_cons_of_mem _ hy, hproduces⟩

/-- A walk that has visited all producers of its place has seen everything that its seed leads
to. -/
theorem mem_of_leadsTo (h : Walk i target seed visited) (hone : i.IsUnambiguousFrom seed)
    (hplace : ∀ y ∈ i.producers (place seed visited), y ∈ visited)
    (hvalue : i.LeadsTo seed value) : value ∈ seed :: visited := by
  induction hvalue with
  | refl => exact List.mem_cons_self ..
  | @tail x z hx hz ih =>
    refine List.mem_cons_of_mem _ ?_
    rcases h.left_behind x ih with rfl | ⟨-, y, hy, hproduces⟩
    · exact hplace z hz
    · rwa [hone x hx z hz y hproduces]

/-- Where nothing is ambiguous, a walk that cannot go on has visited all producers of its place: it
has no producer, or the only one was visited. -/
theorem of_stop (h : Walk i target seed visited) (hone : i.IsUnambiguousFrom seed)
    {fault : PathFault} (hstop : turn i target visited (place seed visited) = .stop fault) :
    (∀ y ∈ i.producers (place seed visited), y ∈ visited) ∧
      ((fault = .noProducer (place seed visited) ∧ ∀ x, x ∉ i.producers (place seed visited)) ∨
        (fault = .severalProducers (place seed visited) [] ∧
          ∃ x ∈ visited, x ∈ i.producers (place seed visited))) := by
  obtain ⟨-, ⟨hfault, hnone⟩ | ⟨candidates, hfault, ⟨x, hx⟩, hnodup, hlength, hmem⟩⟩ :=
    of_turn_stop hstop
  · exact ⟨fun y hy => absurd hy (hnone y), Or.inl ⟨hfault, hnone⟩⟩
  · have honly := hone _ (h.leadsTo_place seed (List.mem_cons_self ..))
    have hvisited : x ∈ visited := by
      by_contra hfresh
      -- Otherwise the producer would be the one candidate, and the walk would step there.
      have hsingle : candidates.Perm [x] :=
        (List.perm_ext_iff_of_nodup hnodup (List.nodup_singleton x)).2 fun y => by
          rw [hmem, List.mem_singleton]
          exact ⟨fun hy => honly y hy.1 x hx, fun hy => hy ▸ ⟨hx, hfresh⟩⟩
      exact hlength hsingle.length_eq
    have hall : ∀ y ∈ i.producers (place seed visited), y ∈ visited := fun y hy =>
      honly y hy x hx ▸ hvisited
    have hnil : candidates = [] := List.eq_nil_iff_forall_not_mem.2 fun y hy =>
      ((hmem y).1 hy).2 (hall y ((hmem y).1 hy).1)
    exact ⟨hall, Or.inr ⟨hnil ▸ hfault, x, hvisited, hx⟩⟩

/-- Where nothing is ambiguous, a walk that cannot go on has not missed the target. -/
theorem not_leadsTo_of_stop (h : Walk i target seed visited) (hone : i.IsUnambiguousFrom seed)
    {fault : PathFault} (hstop : turn i target visited (place seed visited) = .stop fault) :
    ¬ i.LeadsTo seed target := by
  intro hleads
  have hseen := h.mem_of_leadsTo hone (h.of_stop hone hstop).1 hleads
  rcases h.left_behind target hseen with hplace | ⟨hne, -⟩
  · exact (of_turn_stop hstop).1 hplace.symm
  · exact hne rfl

end Walk

/-! ## Ways that end and ways that go round

Which of the two a way does is a matter of the place where it stops. From a place without producers
there is no cycle, and with one producer everywhere a cycle cannot be left, so that only one of the
two faults is possible. -/

theorem Index.eq_of_leadsTo {last : Text} (h : i.LeadsTo value last)
    (hend : ∀ x, x ∉ i.producers value) : last = value := by
  rcases h.cases_head with heq | ⟨x, hx, -⟩
  · exact heq.symm
  · exact absurd hx (hend x)

theorem Index.IsOnCycle.exists_producer (h : i.IsOnCycle value) : ∃ x, x ∈ i.producers value := by
  obtain ⟨x, hx, -⟩ := TransGen.head'_iff.1 h
  exact ⟨x, hx⟩

/-- Where nothing is ambiguous, a way that ends does not go round a cycle before. -/
theorem Index.IsUnambiguousFrom.not_cycle {last : Text} (hone : i.IsUnambiguousFrom seed)
    (hvalue : i.LeadsTo seed value) (hlast : i.LeadsTo value last)
    (hend : ∀ x, x ∉ i.producers last) : ¬ i.IsOnCycle value := by
  induction hlast using ReflTransGen.head_induction_on with
  | refl =>
    intro hcycle
    obtain ⟨x, hx⟩ := hcycle.exists_producer
    exact hend x hx
  | @head value next hnext hrest ih =>
    intro hcycle
    obtain ⟨other, hother, hback⟩ := TransGen.head'_iff.1 hcycle
    obtain rfl : other = next := hone value hvalue other hother next hnext
    exact ih (hvalue.tail hnext) (TransGen.tail' hback hnext)

variable {rules : List Rule} {pattern : Text}

/-- What the search of a chain comes to, where nothing is ambiguous. -/
theorem searchChain_cases_of_unambiguous (hseeds : seeds (.ofRules rules) pattern = [seed])
    (hone : (Index.ofRules rules).IsUnambiguousFrom seed) (target : Text) :
    ((∃ c, searchChain (.ofRules rules) target pattern = .ok c) ∧
      (Index.ofRules rules).LeadsTo seed target) ∨
    (¬ (Index.ofRules rules).LeadsTo seed target ∧
      ∃ stop, (Index.ofRules rules).LeadsTo seed stop ∧
        (∀ value, (Index.ofRules rules).LeadsTo seed value →
          (Index.ofRules rules).LeadsTo value stop) ∧
        ((searchChain (.ofRules rules) target pattern = .error (.noProducer stop) ∧
            ∀ x, x ∉ (Index.ofRules rules).producers stop) ∨
          (searchChain (.ofRules rules) target pattern = .error (.severalProducers stop []) ∧
            (Index.ofRules rules).IsOnCycle stop))) := by
  cases hsearch : searchChain (.ofRules rules) target pattern with
  | ok c =>
    obtain ⟨visited, hwalk, -, hplace⟩ := exists_walk_of_searchChain hsearch
    have hseed := hseeds.symm.trans (searchChain_eq_ok hsearch).1
    obtain rfl : seed = c.seed := (List.cons.inj hseed).1
    have hleads := hwalk.leadsTo_place _ (List.mem_cons_self ..)
    rw [hplace] at hleads
    exact Or.inl ⟨⟨c, rfl⟩, hleads⟩
  | error fault =>
    obtain ⟨visited, hwalk, hturn⟩ := exists_walk_of_fault hseeds hsearch
    obtain ⟨hall, hend⟩ := hwalk.of_stop hone hturn
    refine Or.inr ⟨hwalk.not_leadsTo_of_stop hone hturn, Walk.place seed visited,
      hwalk.leadsTo_place _ (List.mem_cons_self ..),
      fun value hvalue => hwalk.leadsTo_place _ (hwalk.mem_of_leadsTo hone hall hvalue), ?_⟩
    rcases hend with ⟨rfl, hnone⟩ | ⟨rfl, x, hvisited, hx⟩
    · exact Or.inl ⟨rfl, hnone⟩
    · have hback := hwalk.leadsTo_place x (List.mem_cons_of_mem _ hvisited)
      exact Or.inr ⟨rfl, TransGen.head' hx hback⟩

/-- **The search is complete where nothing is ambiguous.** If the seed and all values that it leads
to have at most one producer, the search finds a chain exactly when the target is one of them. Else
its fault names the value where the way back ends, or a value of the cycle that the way back runs
into, without any candidates; it has no other faults. -/
theorem searchChain_complete
    (hseed : ∀ value, value ∈ (Index.ofRules rules).values ∧
      matchesPattern (searchKey pattern) value = true ↔ value = seed)
    (hone : (Index.ofRules rules).IsUnambiguousFrom seed) (target : Text) :
    ((∃ c, searchChain (.ofRules rules) target pattern = .ok c) ↔
      target = seed ∨ TransGen (Index.ofRules rules).IsProducedBy seed target) ∧
    (∀ value, searchChain (.ofRules rules) target pattern = .error (.noProducer value) ↔
      ¬ (Index.ofRules rules).LeadsTo seed target ∧ (Index.ofRules rules).LeadsTo seed value ∧
        ∀ name, name ∉ (Index.ofRules rules).producers value) ∧
    ((∃ value, (Index.ofRules rules).LeadsTo seed value ∧ (Index.ofRules rules).IsOnCycle value ∧
        searchChain (.ofRules rules) target pattern = .error (.severalProducers value [])) ↔
      ¬ (Index.ofRules rules).LeadsTo seed target ∧
        ∃ value, (Index.ofRules rules).LeadsTo seed value ∧
          (Index.ofRules rules).IsOnCycle value) ∧
    ((∃ c, searchChain (.ofRules rules) target pattern = .ok c) ∨
      ∃ value, searchChain (.ofRules rules) target pattern = .error (.noProducer value) ∨
        searchChain (.ofRules rules) target pattern = .error (.severalProducers value [])) := by
  rw [← Relation.reflTransGen_iff_eq_or_transGen]
  obtain ⟨⟨c, hc⟩, hleads⟩ | ⟨hmissed, stop, hstop, hall, ⟨hfault, hend⟩ | ⟨hfault, hcycle⟩⟩ :=
    searchChain_cases_of_unambiguous (seeds_eq_singleton_iff.2 hseed) hone target
  · -- The walk has come to the target.
    rw [hc]
    simp [hleads]
  · -- The walk has come to the end of the way.
    rw [hfault]
    refine ⟨by simpa using hmissed, fun value => ?_, ?_, by simp⟩
    · constructor
      · intro heq
        cases heq
        exact ⟨hmissed, hstop, hend⟩
      · rintro ⟨-, hvalue, hnone⟩
        rw [Index.eq_of_leadsTo (hall value hvalue) hnone]
    · constructor
      · rintro ⟨value, -, -, heq⟩
        cases heq
      · rintro ⟨-, value, hvalue, hcycle⟩
        exact absurd hcycle (hone.not_cycle hvalue (hall value hvalue) hend)
  · -- The walk has gone round a cycle.
    rw [hfault]
    refine ⟨by simpa using hmissed, fun value => ?_, ?_, by simp⟩
    · constructor
      · intro heq
        cases heq
      · rintro ⟨-, hvalue, hnone⟩
        obtain rfl := Index.eq_of_leadsTo (hall value hvalue) hnone
        obtain ⟨x, hx⟩ := hcycle.exists_producer
        exact absurd hx (hnone x)
    · exact ⟨fun _ => ⟨hmissed, stop, hstop, hcycle⟩, fun _ => ⟨stop, hstop, hcycle, rfl⟩⟩

/-! ### Rules that can be checked -/

namespace Index

/-- Steps back lead out of no list of values that has all their producers. -/
theorem LeadsTo.mem {values : List Text} (h : i.LeadsTo seed value) (hseed : seed ∈ values)
    (hclosed : ∀ x ∈ values, ∀ name ∈ (i.producers x).toList, name ∈ values) : value ∈ values := by
  induction h with
  | refl => exact hseed
  | tail _ hstep ih => exact hclosed _ ih _ hstep

/-- To see that there is no choice on the way back, it is enough to look at such a list. -/
theorem isUnambiguousFrom_of_closed {values : List Text} (hseed : seed ∈ values)
    (hclosed : ∀ x ∈ values, ∀ name ∈ (i.producers x).toList, name ∈ values)
    (hone : ∀ x ∈ values, (i.producers x).toList.length ≤ 1) : i.IsUnambiguousFrom seed := by
  intro value hvalue name hname other hother
  have hlength := hone value (LeadsTo.mem hvalue hseed hclosed)
  rw [← NameSet.mem_toList] at hname hother
  match hlist : (i.producers value).toList with
  | [] => simp [hlist] at hname
  | [only] => simp_all
  | _ :: _ :: _ => simp [hlist] at hlength

end Index

/-- From a seed that is a non-terminal itself, a walk comes back to the seed. It has met the other
name on its way, and it stops at the seed when it looks for something else. -/
theorem searchChain_complete_of_mutualRules :
    (Index.ofRules mutualRules).IsUnambiguousFrom "<b>".toList ∧
      (∃ c, searchChain (.ofRules mutualRules) "<a>".toList "\"<b>\"".toList = .ok c) ∧
      ∃ value, (Index.ofRules mutualRules).IsOnCycle value ∧
        searchChain (.ofRules mutualRules) "<z>".toList "\"<b>\"".toList =
          .error (.severalProducers value []) := by
  have hseed := seeds_eq_singleton_iff.1 (by decide +kernel :
    seeds (.ofRules mutualRules) "\"<b>\"".toList = ["<b>".toList])
  have hclosed : ∀ x ∈ ["<b>".toList, "<a>".toList],
      ∀ name ∈ ((Index.ofRules mutualRules).producers x).toList,
        name ∈ ["<b>".toList, "<a>".toList] := by decide +kernel
  have hone : (Index.ofRules mutualRules).IsUnambiguousFrom "<b>".toList :=
    Index.isUnambiguousFrom_of_closed (List.mem_cons_self ..) hclosed (by decide +kernel)
  have hthere : "<a>".toList ∈ (Index.ofRules mutualRules).producers "<b>".toList := by
    decide +kernel
  have hback : "<b>".toList ∈ (Index.ofRules mutualRules).producers "<a>".toList := by
    decide +kernel
  have hmissed : ¬ (Index.ofRules mutualRules).LeadsTo "<b>".toList "<z>".toList := fun h =>
    absurd (Index.LeadsTo.mem h (List.mem_cons_self ..) hclosed) (by decide)
  refine ⟨hone, (searchChain_complete hseed hone "<a>".toList).1.2 (Or.inr (.single hthere)), ?_⟩
  obtain ⟨value, -, hcycle, hfault⟩ := (searchChain_complete hseed hone "<z>".toList).2.2.1.2
    ⟨hmissed, "<b>".toList, .refl, .tail (.single hthere) hback⟩
  exact ⟨value, hcycle, hfault⟩

end GrammarTree
