import GrammarTree.Grammar.Index
import GrammarTree.Pattern

/-!
# Chains

A chain leads from a value, its *seed*, back to a target label: each of its values is produced by
the one after it. The search picks the one value that the pattern matches, and then steps back to
the one producer that is not yet on the chain, until it reaches the target. A step with no such
producer or with several ends the search, so that a chain is found only when it is the only one.

The search cannot go round in circles, since a name that was used is taken out of the names that are
left. The names that are left are the argument that gets shorter. What the search itself keeps is
the set of names on the chain; that the two come to the same is proved in `Proofs.Grammar.Walk`.

What is here:

* `Chain`, with `Chain.values` and `Chain.intermediates`;
* `Chain.climb`, the steps back, which use up the names of the rules one by one;
* `searchChain`, the search.
-/

set_option autoImplicit false

namespace GrammarTree

/-- The values from a seed back to a target label. -/
structure Chain where
  /-- The value that the pattern matched. -/
  seed : Text
  /-- The alternative to expand for the seed. -/
  alternative : Text
  /-- The values after the seed, in the order of the search, the target last. -/
  above : List Text
  deriving DecidableEq, Repr

namespace Chain

/-- All values in the order of the search: the seed first and the target last. -/
def values (c : Chain) : List Text := c.seed :: c.above

/-- The non-terminals strictly between the target and the seed, the one below the target first. -/
def intermediates (c : Chain) : List Text := c.above.dropLast.reverse

/-- The names that are left when one is used up. -/
def without (name : Text) (names : List Text) : List Text := names.filter fun n => n ≠ name

theorem length_without_lt {name : Text} {names : List Text} (h : name ∈ names) :
    (without name names).length < names.length :=
  List.length_filter_lt_length_iff_exists.2 ⟨name, h, by simp⟩

/-- The values after `value` on the way back to the target, where `unused` holds the names of the
rules that are not yet on the chain. -/
def climb (i : Index) (target : Text) (unused : List Text) (value : Text) :
    Except PathFault (List Text) :=
  if value = target then .ok []
  else if (i.producers value).toList = [] then .error (.noProducer value)
  else
    match _h : (i.producers value).toList.filter (unused.contains ·) with
    | [next] =>
      match climb i target (without next unused) next with
      | .ok above => .ok (next :: above)
      | .error fault => .error fault
    | candidates => .error (.severalProducers value candidates)
termination_by unused.length
decreasing_by
  have hmem : next ∈ (i.producers value).toList.filter (unused.contains ·) := by
    rw [_h]
    exact List.mem_singleton_self next
  have hnext : next ∈ unused := List.contains_iff_mem.1 (List.mem_filter.1 hmem).2
  exact length_without_lt hnext

end Chain

/-- The values of an index that a pattern matches. -/
def seeds (i : Index) (pattern : Text) : List Text :=
  i.values.filter (matchesPattern (searchKey pattern))

/-- The chain from the one value that the pattern matches back to the target label. -/
def searchChain (i : Index) (target pattern : Text) : Except PathFault Chain :=
  match seeds i pattern with
  | [seed] =>
    match Chain.climb i target i.owners seed with
    | .ok above => .ok ⟨seed, i.spelling seed, above⟩
    | .error fault => .error fault
  | matching => .error (.seed pattern matching)

end GrammarTree
