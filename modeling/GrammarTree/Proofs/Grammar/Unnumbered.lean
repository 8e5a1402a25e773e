import GrammarTree.Derivation.Growth
import GrammarTree.Proofs.Grammar.RoundTrip

/-!
# Rules without their lines

A rule remembers the line of the grammar text where it starts. This file proves that nothing that is
looked up in the rules depends on it, so that the written form of a grammar gives the same answers
as the text that it was read from.

An index holds the rules, lines and all, so the indices of the two lists are not equal. They differ
in this one field. The search reads only the symbols from it, and a merged rule has no line. What
remains is to carry the agreement through the functions that use an index.

What is here:

* `Grammar.SameRules`, rules that differ at most in their lines, and `Grammar.sameRules_toText`;
* what they have in common, from numbered and merged rules to `Grammar.SameRules.searchChain`, the
  chains, and `Grammar.SameRules.growPath`, the paths.

What is the same over histories of a session is proved from this in `Proofs.Session.Normal`.
-/

set_option autoImplicit false

namespace GrammarTree

/-- A rule without its line. -/
def Rule.unnumbered (r : Rule) : Rule := { r with line := none }

/-! ## The search in another index

The search is compared for names that are the same as a set, in whatever order and however often
they are listed. This is more than rules without lines need, and it is what rules that merge into
the same need. -/

namespace Chain

variable {i i' : Index}

/-- One step of the search. -/
theorem climb_eq (target : Text) (unused : List Text) (value : Text) :
    climb i target unused value =
      if value = target then .ok []
      else if (i.producers value).toList = [] then .error (.noProducer value)
      else match (i.producers value).toList.filter (unused.contains ·) with
        | [next] =>
          match climb i target (without next unused) next with
          | .ok above => .ok (next :: above)
          | .error fault => .error fault
        | candidates => .error (.severalProducers value candidates) := by
  rw [climb]
  split
  · rfl
  · split
    · rfl
    · split
      · rename_i next hnext
        exact hnext ▸ rfl
      · rename_i candidates hseveral
        split
        · rename_i next hnext
          exact absurd hnext (hseveral next)
        · rfl

theorem filter_contains_congr {left right : List Text} (h : ∀ name, name ∈ left ↔ name ∈ right)
    (names : List Text) : names.filter (left.contains ·) = names.filter (right.contains ·) := by
  refine List.filter_congr fun name _ => ?_
  rw [Bool.eq_iff_iff, List.contains_iff_mem, List.contains_iff_mem, h]

theorem mem_without_congr {left right : List Text} (h : ∀ name, name ∈ left ↔ name ∈ right)
    (next name : Text) : name ∈ without next left ↔ name ∈ without next right := by
  rw [without, without, List.mem_filter, List.mem_filter, h]

/-- The search reads the producers of an index and which names are unused, and nothing else. -/
theorem climb_congr (h : ∀ value, i.producers value = i'.producers value) (target : Text)
    {unused unused' : List Text} (hunused : ∀ name, name ∈ unused ↔ name ∈ unused')
    (value : Text) : climb i target unused value = climb i' target unused' value := by
  induction unused, value using climb.induct i target generalizing unused' with
  | case1 unused => rw [climb_eq, climb_eq, if_pos rfl, if_pos rfl]
  | case2 unused value hvalue hnone =>
    rw [climb_eq, climb_eq, ← h, if_neg hvalue, if_neg hvalue, if_pos hnone, if_pos hnone]
  | case3 unused value hvalue hsome next hnext above _ ih =>
    rw [climb_eq, climb_eq, ← h, if_neg hvalue, if_neg hvalue, if_neg hsome, if_neg hsome,
      ← filter_contains_congr hunused, hnext]
    simp only [ih (mem_without_congr hunused next)]
  | case4 unused value hvalue hsome next hnext fault _ ih =>
    rw [climb_eq, climb_eq, ← h, if_neg hvalue, if_neg hvalue, if_neg hsome, if_neg hsome,
      ← filter_contains_congr hunused, hnext]
    simp only [ih (mem_without_congr hunused next)]
  | case5 unused value hvalue hsome hseveral =>
    rw [climb_eq, climb_eq, ← h, if_neg hvalue, if_neg hvalue, if_neg hsome, if_neg hsome,
      ← filter_contains_congr hunused]
    split
    · rename_i next hnext
      exact absurd hnext (hseveral next)
    · rfl

end Chain

/-- An index with other rules finds the same chains, as long as their symbols are the same. -/
theorem searchChain_withRules (i : Index) {rules : List Rule}
    (h : rules.map Rule.symbol = i.rules.map Rule.symbol) (target pattern : Text) :
    searchChain { i with rules := rules } target pattern = searchChain i target pattern := by
  have hseeds : seeds { i with rules := rules } pattern = seeds i pattern := rfl
  have howners : Index.owners { i with rules := rules } = i.owners := h
  have hspelling : Index.spelling { i with rules := rules } = i.spelling := rfl
  have hproducers : ∀ value,
      Index.producers { i with rules := rules } value = i.producers value := fun _ => rfl
  rw [searchChain, searchChain, hseeds, howners, hspelling]
  simp only [Chain.climb_congr hproducers target fun _ => Iff.rfl]

/-! ## Rules that differ in their lines -/

namespace Grammar

/-- Whether two lists of rules differ at most in the lines of the rules. -/
def SameRules (rules rules' : List Rule) : Prop :=
  rules.map Rule.unnumbered = rules'.map Rule.unnumbered

/-- The written form of a grammar has the same rules. -/
theorem sameRules_toText (t : Text) : SameRules (rules (toText (rules t))) (rules t) := by
  rw [SameRules, rules, valid_read_toText fun r hr => writable_of_mem_rules hr, List.map_map,
    ← List.zipIdx_map_fst 1 (Grammar.rules t), List.map_map, List.zipIdx_map_fst]
  rfl

theorem merged?_map_unnumbered (rules : List Rule) (symbol : Text) :
    merged? (rules.map Rule.unnumbered) symbol = merged? rules symbol := by
  have hfilter : (rules.map Rule.unnumbered).filter (fun r => r.symbol = symbol) =
      (rules.filter fun r => r.symbol = symbol).map Rule.unnumbered := List.filter_map
  rw [merged?, merged?, hfilter]
  cases rules.filter fun r => r.symbol = symbol with
  | nil => rfl
  | cons first rest =>
    rw [List.map_cons]
    simp only [List.flatMap_map]
    rfl

theorem ofRules_map_unnumbered (rules : List Rule) :
    Index.ofRules (rules.map Rule.unnumbered) =
      { Index.ofRules rules with rules := rules.map Rule.unnumbered } := by
  have howned : Index.owned (rules.map Rule.unnumbered) = Index.owned rules := List.flatMap_map ..
  rw [Index.ofRules, howned]
  rfl

namespace SameRules

variable {rules rules' : List Rule}

theorem refl (rules : List Rule) : SameRules rules rules := rfl

theorem ruleNumbered? (h : SameRules rules rules') (number : Int) :
    (Grammar.ruleNumbered? rules number).map Rule.symbol =
      (Grammar.ruleNumbered? rules' number).map Rule.symbol := by
  have hsymbols := congrArg (List.map Rule.symbol) h
  rw [List.map_map, List.map_map] at hsymbols
  rw [Grammar.ruleNumbered?, Grammar.ruleNumbered?]
  split
  · rfl
  · rw [← List.getElem?_map, ← List.getElem?_map]
    exact congrArg (·[(number - 1).toNat]?) hsymbols

theorem merged? (h : SameRules rules rules') (symbol : Text) :
    Grammar.merged? rules symbol = Grammar.merged? rules' symbol := by
  rw [← merged?_map_unnumbered, h, merged?_map_unnumbered]

theorem searchChain (h : SameRules rules rules') (target pattern : Text) :
    GrammarTree.searchChain (.ofRules rules) target pattern =
      GrammarTree.searchChain (.ofRules rules') target pattern := by
  have hplain : ∀ rules, GrammarTree.searchChain (.ofRules rules) target pattern =
      GrammarTree.searchChain (.ofRules (rules.map Rule.unnumbered)) target pattern := by
    intro rules
    have hsymbols : (rules.map Rule.unnumbered).map Rule.symbol = rules.map Rule.symbol :=
      List.map_map
    rw [ofRules_map_unnumbered]
    exact (searchChain_withRules (.ofRules rules) hsymbols target pattern).symm
  rw [hplain, h, ← hplain]

theorem chainFrom (h : SameRules rules rules') (g : Derivation) (source : NodeId) (pattern : Text) :
    g.chainFrom (.ofRules rules) source pattern = g.chainFrom (.ofRules rules') source pattern := by
  rw [Derivation.chainFrom, Derivation.chainFrom]
  simp only [h.searchChain]

theorem growPath (h : SameRules rules rules') (source : NodeId) (pattern : Text) :
    Derivation.growPath (.ofRules rules) source pattern =
      Derivation.growPath (.ofRules rules') source pattern := by
  rw [Derivation.growPath, Derivation.growPath]
  simp only [h.chainFrom]

end SameRules

end Grammar

end GrammarTree
