import GrammarTree.Grammar.Chain
import GrammarTree.Proofs.Grammar.Producers
import Mathlib.Data.List.Chain
import Mathlib.Data.List.Nodup

/-!
# The chain that is found is the only one

The search of a chain steps back to the one producer that is not yet on the chain. This file proves
that a chain that is found is a simple path from its seed back to the target, and that no other
simple path leads there, whatever cycles the rules have.

Uniqueness needs one remark. A simple path could leave the chain at some value through a producer
that the search has set aside because it was used. But the producers that were used stand on the
path too, up to that value, and a simple path does not come back to them. So at each value both go
to the one producer that is left.

What is here:

* `IsSimplePath`, the simple paths from a value back to a target;
* `Chain.climb_cases`, what one successful step of the search says;
* `Chain.isSimplePath_of_climb` and `Chain.eq_of_isSimplePath`: the search is sound, and it finds
  the only simple path;
* `searchChain_only_simple_path`, both together for whole searches.
-/

set_option autoImplicit false

namespace GrammarTree

/-- A path of values from a seed back to a target: each of them produces the one before it, and none
occurs twice. -/
structure IsSimplePath (i : Index) (seed target : Text) (path : List Text) : Prop where
  /-- The path starts at the seed. -/
  starts : path.head? = some seed
  /-- The path ends at the target. -/
  ends : path.getLast? = some target
  /-- No value occurs twice. -/
  nodup : path.Nodup
  /-- Every value is produced by the next one. -/
  steps : path.IsChain fun value next => next ∈ i.producers value

namespace Chain

variable {i : Index} {target : Text}

/-! ## One step -/

theorem mem_without {name x : Text} {names : List Text} :
    x ∈ without name names ↔ x ∈ names ∧ x ≠ name := by
  rw [without, List.mem_filter, decide_eq_true_eq]

/-- A search that succeeds is at the target, or steps back to the only unused producer. -/
theorem climb_cases {unused above : List Text} {value : Text}
    (h : climb i target unused value = .ok above) :
    (value = target ∧ above = []) ∨
      ∃ next rest, value ≠ target ∧ above = next :: rest ∧
        (∀ x, x ∈ i.producers value ∧ x ∈ unused ↔ x = next) ∧
        climb i target (without next unused) next = .ok rest := by
  rw [climb] at h
  split at h
  · rename_i hvalue
    cases h
    exact Or.inl ⟨hvalue, rfl⟩
  · rename_i hvalue
    split at h
    · cases h
    · split at h
      · rename_i next hnext
        split at h
        · rename_i rest hrest
          cases h
          refine Or.inr ⟨next, rest, hvalue, rfl, fun x => ?_, hrest⟩
          rw [← List.mem_singleton, ← hnext, List.mem_filter, List.contains_iff_mem]
          rfl
        · cases h
      · cases h

/-! ## Soundness

The values of a chain are different because each of them, the target aside, has a producer that
was unused when the search came to it, and only one. A value that came up again would need a
second one. -/

/-- Every value of a chain but the target has a producer that was unused. -/
theorem exists_unused_producer {unused above : List Text} {value : Text}
    (h : climb i target unused value = .ok above) {x : Text} (hx : x ∈ value :: above)
    (hne : x ≠ target) : ∃ y, y ∈ i.producers x ∧ y ∈ unused := by
  induction above generalizing unused value with
  | nil =>
    obtain ⟨hvalue, -⟩ | ⟨_, _, -, habove, -⟩ := climb_cases h
    · exact absurd ((List.mem_singleton.1 hx).trans hvalue) hne
    · cases habove
  | cons next rest ih =>
    obtain ⟨-, habove⟩ | ⟨_, _, -, habove, honly, hrest⟩ := climb_cases h
    · cases habove
    · cases habove
      rcases List.mem_cons.1 hx with rfl | hx
      · exact ⟨next, (honly next).2 rfl⟩
      · obtain ⟨y, hy, hunused⟩ := ih hrest hx
        exact ⟨y, hy, (mem_without.1 hunused).1⟩

/-- A search that succeeds has gone along a simple path. -/
theorem isSimplePath_of_climb {unused above : List Text} {value : Text}
    (h : climb i target unused value = .ok above) :
    IsSimplePath i value target (value :: above) := by
  induction above generalizing unused value with
  | nil =>
    obtain ⟨rfl, -⟩ | ⟨_, _, -, habove, -⟩ := climb_cases h
    · exact ⟨rfl, rfl, List.nodup_singleton _, List.isChain_singleton _⟩
    · cases habove
  | cons next rest ih =>
    obtain ⟨-, habove⟩ | ⟨_, _, hvalue, habove, honly, hrest⟩ := climb_cases h
    · cases habove
    · cases habove
      have hpath := ih hrest
      refine ⟨rfl, by rw [List.getLast?_cons_cons, hpath.ends], ?_, ?_⟩
      · -- Were the value met again, it would need a second producer to go on to.
        refine List.nodup_cons.2 ⟨fun hmem => ?_, hpath.nodup⟩
        obtain ⟨y, hy, hunused⟩ := exists_unused_producer hrest hmem hvalue
        obtain ⟨hunused, hne⟩ := mem_without.1 hunused
        exact hne ((honly y).1 ⟨hy, hunused⟩)
      · exact List.isChain_cons_cons.2 ⟨((honly next).2 rfl).1, hpath.steps⟩

/-! ## Uniqueness

The induction is along the search, for a path all of whose later values are unused. The value that
the search steps back to is then the only one that the path can go on with, and the rest of the path
does not use it again because it is simple. -/

/-- Every simple path through unused names is the one that the search has gone along. -/
theorem eq_of_isSimplePath {unused above rest : List Text} {value : Text}
    (h : climb i target unused value = .ok above)
    (hpath : IsSimplePath i value target (value :: rest)) (hunused : ∀ x ∈ rest, x ∈ unused) :
    rest = above := by
  induction above generalizing unused value rest with
  | nil =>
    obtain ⟨rfl, -⟩ | ⟨_, _, -, habove, -⟩ := climb_cases h
    · cases rest with
      | nil => rfl
      | cons next rest =>
        -- A path that goes on from the target would end at a second occurrence of it.
        have hlast : value ∈ next :: rest := by
          have hends := hpath.ends
          rw [List.getLast?_cons_cons] at hends
          exact List.mem_of_getLast? hends
        exact absurd hlast (List.nodup_cons.1 hpath.nodup).1
    · cases habove
  | cons next above ih =>
    obtain ⟨-, habove⟩ | ⟨_, _, hvalue, habove, honly, hrest⟩ := climb_cases h
    · cases habove
    · cases habove
      cases rest with
      | nil => exact absurd (Option.some.inj hpath.ends) hvalue
      | cons other rest =>
        obtain ⟨hproduces, hsteps⟩ := List.isChain_cons_cons.1 hpath.steps
        obtain ⟨-, hnodup⟩ := List.nodup_cons.1 hpath.nodup
        have hfresh := (List.nodup_cons.1 hnodup).1
        obtain rfl := (honly other).1 ⟨hproduces, hunused other (List.mem_cons_self ..)⟩
        have hends := hpath.ends
        rw [List.getLast?_cons_cons] at hends
        have hleft : ∀ x ∈ rest, x ∈ without other unused := by
          intro x hx
          refine mem_without.2 ⟨hunused x (List.mem_cons_of_mem _ hx), ?_⟩
          rintro rfl
          exact hfresh hx
        rw [ih hrest ⟨rfl, hends, hnodup, hsteps⟩ hleft]

end Chain

/-! ## Whole searches -/

/-- The values of a path after its first one are rules of the grammar. -/
theorem mem_owners_of_isChain {rules : List Rule} {value : Text} {rest : List Text}
    (h : (value :: rest).IsChain fun value next => next ∈ (Index.ofRules rules).producers value) :
    ∀ x ∈ rest, x ∈ (Index.ofRules rules).owners := by
  induction rest generalizing value with
  | nil => simp
  | cons next rest ih =>
    obtain ⟨hproduces, hsteps⟩ := List.isChain_cons_cons.1 h
    intro x hx
    rcases List.mem_cons.1 hx with rfl | hx
    · exact Index.mem_owners_of_mem_producers hproduces
    · exact ih hsteps x hx

/-- What a search that succeeds has found out. -/
theorem searchChain_eq_ok {i : Index} {target pattern : Text} {c : Chain}
    (h : searchChain i target pattern = .ok c) :
    seeds i pattern = [c.seed] ∧ Chain.climb i target i.owners c.seed = .ok c.above := by
  rw [searchChain] at h
  split at h
  · rename_i seed hseeds
    split at h
    · rename_i above habove
      cases h
      exact ⟨hseeds, habove⟩
    · cases h
  · cases h

/-- The alternative of a chain is the spelling of its seed. -/
theorem alternative_of_searchChain {i : Index} {target pattern : Text} {c : Chain}
    (h : searchChain i target pattern = .ok c) : c.alternative = i.spelling c.seed := by
  rw [searchChain] at h
  split at h
  · split at h
    · cases h
      rfl
    · cases h
  · cases h

theorem isSimplePath_iff_of_searchChain {rules : List Rule} {target pattern : Text} {c : Chain}
    (h : searchChain (.ofRules rules) target pattern = .ok c) {path : List Text} :
    IsSimplePath (.ofRules rules) c.seed target path ↔ path = c.values := by
  have hclimb := (searchChain_eq_ok h).2
  constructor
  · intro hpath
    cases path with
    | nil => cases hpath.starts
    | cons value rest =>
      obtain rfl := Option.some.inj hpath.starts
      rw [Chain.values, Chain.eq_of_isSimplePath hclimb hpath (mem_owners_of_isChain hpath.steps)]
  · rintro rfl
    exact Chain.isSimplePath_of_climb hclimb

/-- **A chain is found only when it is the only one.** Its seed is the one value that the pattern
matches, and it is the one simple path from there back to the target; where there are two, the
search fails. -/
theorem searchChain_only_simple_path (rules : List Rule) (target pattern : Text) :
    (∀ c, searchChain (.ofRules rules) target pattern = .ok c →
      (∀ value, value ∈ (Index.ofRules rules).values ∧
        matchesPattern (searchKey pattern) value = true ↔ value = c.seed) ∧
      ∀ path, IsSimplePath (.ofRules rules) c.seed target path ↔ path = c.values) ∧
    ∀ seed p q, seed ∈ (Index.ofRules rules).values →
      matchesPattern (searchKey pattern) seed = true →
      IsSimplePath (.ofRules rules) seed target p → IsSimplePath (.ofRules rules) seed target q →
      p ≠ q → ∃ fault, searchChain (.ofRules rules) target pattern = .error fault := by
  have hseed : ∀ c, searchChain (.ofRules rules) target pattern = .ok c →
      ∀ value, value ∈ (Index.ofRules rules).values ∧
        matchesPattern (searchKey pattern) value = true ↔ value = c.seed := by
    intro c h value
    have hmem : value ∈ seeds (.ofRules rules) pattern ↔ value = c.seed := by
      rw [(searchChain_eq_ok h).1, List.mem_singleton]
    rw [← hmem, seeds, List.mem_filter]
  refine ⟨fun c h => ⟨hseed c h, fun path => isSimplePath_iff_of_searchChain h⟩, ?_⟩
  intro seed p q hvalue hmatches hp hq hne
  cases h : searchChain (.ofRules rules) target pattern with
  | error fault => exact ⟨fault, rfl⟩
  | ok c =>
    obtain rfl := (hseed c h seed).1 ⟨hvalue, hmatches⟩
    have hsame := (isSimplePath_iff_of_searchChain h).1 hp
    exact absurd (hsame.trans ((isSimplePath_iff_of_searchChain h).1 hq).symm) hne

/-- Rules with a cycle that only one simple path avoids. -/
def leftRecursiveRules : List Rule :=
  Grammar.rules "<s> ::= <s> + <t> | <t>\n<t> ::= x | y".toList

/-- Rules with two ways from the target to one value. -/
def twoWayRules : List Rule :=
  Grammar.rules "<s> ::= <t> | <u>\n<t> ::= x\n<u> ::= x".toList

/-- Left recursion does not make a path ambiguous, and a second way down does. -/
theorem searchChain_only_simple_path_of_left_recursion :
    searchChain (.ofRules leftRecursiveRules) "<s>".toList "x".toList =
        .ok ⟨"x".toList, "x".toList, ["<t>".toList, "<s>".toList]⟩ ∧
      (∀ path, IsSimplePath (.ofRules leftRecursiveRules) "x".toList "<s>".toList path ↔
        path = ["x".toList, "<t>".toList, "<s>".toList]) ∧
      ∃ fault, searchChain (.ofRules twoWayRules) "<s>".toList "x".toList = .error fault := by
  have hfound : searchChain (.ofRules leftRecursiveRules) "<s>".toList "x".toList =
      .ok ⟨"x".toList, "x".toList, ["<t>".toList, "<s>".toList]⟩ := by decide +kernel
  refine ⟨hfound, ((searchChain_only_simple_path leftRecursiveRules _ _).1 _ hfound).2, ?_⟩
  refine (searchChain_only_simple_path twoWayRules _ _).2 "x".toList
    ["x".toList, "<t>".toList, "<s>".toList] ["x".toList, "<u>".toList, "<s>".toList]
    (by decide +kernel) (by decide +kernel) ?_ ?_ (by decide)
  · exact ⟨rfl, rfl, by decide, by decide +kernel⟩
  · exact ⟨rfl, rfl, by decide, by decide +kernel⟩

end GrammarTree
