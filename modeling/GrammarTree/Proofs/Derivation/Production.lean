import GrammarTree.Proofs.Derivation.Path
import GrammarTree.Proofs.Grammar.Merging

/-!
# The alternative at the end of a path

A grammar may write one value in several ways, and an index keeps one of them for the whole grammar,
without the rule that it comes from. The tokens at the end of a path are those of the kept spelling,
so it may seem that they can come from a rule which has nothing to do with the node they are put
under. This file proves that a path ends in a production of the rules all the same.

The reason is in the search. The first step back from the value passes only if the value has a
single producer, and the label of the node that gets the tokens is this producer. All alternatives
with the value are then alternatives of one symbol, whose rules count together as one merged rule,
and the first of them in the grammar is the first of them in the merged rule.

What is here:

* `Grammar.spelling_of_merged`: the spelling of a value that one symbol writes, from the merged
  rule;
* `searchChain_ends_in_production`: what a search expands at the lower end of its chain;
* `Derivation.AddsPath.label?_attach`, the label of the node that gets the tokens;
* `Derivation.growPath_expands_production`: what a path has added below its last node.
-/

set_option autoImplicit false

namespace GrammarTree

/-! ## Chains -/

/-- The step after the seed leads to the lowest intermediate value, or to the target. -/
theorem Chain.lowest_of_above {c : Chain} {target owner : Text} {rest : List Text}
    (h : c.values.getLast? = some target) (habove : c.above = owner :: rest) :
    c.intermediates.getLast?.getD target = owner := by
  have hne : c.above ≠ [] := by
    rw [habove]
    exact List.cons_ne_nil owner rest
  have hlast := congrArg List.getLast? (reverse_above h hne)
  rw [List.getLast?_reverse, habove, List.head?_cons, List.getLast?_cons] at hlast
  exact (Option.some.inj hlast).symm

namespace Grammar

variable {rules : List Rule} {value owner : Text}

/-- A value that only one symbol writes is spelled as the first alternative of its merged rule that
has the value. -/
theorem spelling_of_merged (hvalue : value ∈ (Index.ofRules rules).values)
    (h : ∀ o ∈ Index.owned rules, Alternative.value o.2 = value → o.1 = owner) :
    ∃ rule, merged? rules owner = some rule ∧
      rule.alternatives.find? (fun a => Alternative.value a = value) =
        some ((Index.ofRules rules).spelling value) := by
  obtain ⟨o, ho, hspelled⟩ := Index.mem_values_ofRules.1 hvalue
  have hmem : o.2 ∈ alternativesFor rules owner := by
    have hfiltered : o ∈ (Index.owned rules).filter fun o => o.1 = owner :=
      List.mem_filter.2 ⟨ho, decide_eq_true (h o ho hspelled)⟩
    rw [filter_owned] at hfiltered
    obtain ⟨a, ha, rfl⟩ := List.mem_map.1 hfiltered
    exact ha
  obtain ⟨a, ha⟩ : ∃ a, (alternativesFor rules owner).find?
      (fun a => Alternative.value a = value) = some a := by
    rw [← Option.isSome_iff_exists, List.find?_isSome]
    exact ⟨o.2, hmem, decide_eq_true hspelled⟩
  have hspelling := spelling_of_sole_owner h
  rw [ha, Option.getD_some] at hspelling
  rw [alternativesFor_eq_merged?] at ha
  cases hmerged : merged? rules owner with
  | none =>
    rw [hmerged] at ha
    cases ha
  | some rule =>
    rw [hmerged] at ha
    exact ⟨rule, rfl, hspelling ▸ ha⟩

end Grammar

/-- The alternative of a chain is the first one with the value of the seed in the merged rule of the
label at the lower end. -/
theorem searchChain_ends_in_production {rules : List Rule} {target pattern : Text} {c : Chain}
    (h : searchChain (.ofRules rules) target pattern = .ok c) (hne : c.above ≠ []) :
    ∃ rule, Grammar.merged? rules (c.intermediates.getLast?.getD target) = some rule ∧
      rule.alternatives.find? (fun a => Alternative.value a = c.seed) = some c.alternative := by
  obtain ⟨hseeds, hclimb⟩ := searchChain_eq_ok h
  have hseed : c.seed ∈ seeds (.ofRules rules) pattern := by
    rw [hseeds]
    exact List.mem_singleton_self c.seed
  obtain ⟨owner, rest, habove⟩ := List.exists_cons_of_ne_nil hne
  rw [Chain.lowest_of_above (Chain.isSimplePath_of_climb hclimb).ends habove,
    alternative_of_searchChain h]
  rw [habove] at hclimb
  exact Grammar.spelling_of_merged (List.mem_of_mem_filter hseed) fun _ ho hvalue =>
    eq_of_climb_cons hclimb ho hvalue

namespace Derivation

variable {g g' : Derivation} {r : Growth}

/-- The node that gets the tokens carries the lowest intermediate value, or is the source. -/
theorem AddsPath.label?_attach (h : AddsPath g r g') {label : Text}
    (hlabel : g.label? r.source = some label) :
    g'.label? r.attach = some (r.chain.intermediates.getLast?.getD label) := by
  have hlast := congrArg List.getLast? h.spine_labels
  rw [List.getLast?_map, List.getLast?_map] at hlast
  rw [Growth.attach]
  cases hspine : r.spine.getLast? with
  | none =>
    rw [hspine, Option.map_none, eq_comm, Option.map_eq_none_iff] at hlast
    rw [hlast, Option.getD_none, Option.getD_none, (h.kept _ (contains_of_label? hlabel)).1, hlabel]
  | some last =>
    rw [hspine, Option.map_some, eq_comm, Option.map_eq_some_iff] at hlast
    obtain ⟨lowest, hlowest, hlast⟩ := hlast
    rw [hlowest, Option.getD_some, Option.getD_some, hlast]

/-- **A path ends in a production.** The node that gets the tokens is labelled with a symbol of the
rules, and they are the tokens of the first alternative in its merged rule that has the value of the
seed. -/
theorem growPath_expands_production (hg : g.Reachable) (rules : List Rule) (source : NodeId)
    (pattern : Text) (h : growPath (.ofRules rules) source pattern g = .ok r g') :
    ∃ label rule, g'.label? r.attach = some label ∧ Grammar.merged? rules label = some rule ∧
      r.chain.alternative ∈ rule.alternatives ∧
      Alternative.value r.chain.alternative = r.chain.seed ∧
      rule.alternatives.find? (fun a => Alternative.value a = r.chain.seed) =
        some r.chain.alternative ∧
      r.leaves.map g'.label? = (Alternative.tokens r.chain.alternative).map some ∧
      ∀ x ∈ r.leaves, g'.parent? x = some r.attach := by
  rw [growPath_eq hg.isForest] at h
  cases hchain : g.chainFrom (.ofRules rules) source pattern with
  | error e =>
    rw [hchain] at h
    cases h
  | ok chain =>
    rw [hchain] at h
    cases h
    obtain ⟨label, hlabel, hsearch, hne⟩ := chainFrom_eq_ok hchain
    have hadds := hg.isForest.addsPath_withPath (contains_of_chainFrom hchain)
      (isPlaceholder_of_mem_intermediates hsearch)
    obtain ⟨rule, hmerged, hfirst⟩ := searchChain_ends_in_production hsearch hne
    have hvalue : Alternative.value chain.alternative = chain.seed := by
      simpa using List.find?_some hfirst
    exact ⟨_, rule, hadds.label?_attach hlabel, hmerged, List.mem_of_find?_eq_some hfirst, hvalue,
      hfirst, hadds.leaf_labels, hadds.leaf_parents⟩

/-- The chain from the start of the piecewise rules to their value with two spellings. -/
def piecewiseChain : Chain := ⟨"xy".toList, "x  y".toList, ["<t>".toList, "<s>".toList]⟩

/-- A value with two spellings is found below an intermediate node, which gets the tokens of the
spelling that comes first. -/
theorem growPath_expands_production_of_piecewiseRules :
    let g := play [.newNode "<s>".toList] empty
    g.Reachable ∧ ∃ r g', growPath (.ofRules Grammar.piecewiseRules) 0 "xy".toList g = .ok r g' ∧
      r.chain.alternative = "x  y".toList ∧ g'.label? r.attach = some "<t>".toList ∧
      (Grammar.merged? Grammar.piecewiseRules "<t>".toList).map Rule.alternatives =
        some ["x  y".toList, "xy".toList, "w".toList] ∧
      ["x  y".toList, "xy".toList, "w".toList].find? (fun a => Alternative.value a = r.chain.seed) =
        some r.chain.alternative := by
  intro g
  have hg : g.Reachable := ⟨_, rfl⟩
  have hchain : g.chainFrom (.ofRules Grammar.piecewiseRules) 0 "xy".toList =
      .ok piecewiseChain := by decide +kernel
  have hgrow := growPath_eq hg.isForest (.ofRules Grammar.piecewiseRules) 0 "xy".toList
  rw [hchain] at hgrow
  obtain ⟨label, rule, hlabel, hmerged, -, -, hfirst, -⟩ :=
    growPath_expands_production hg Grammar.piecewiseRules 0 "xy".toList hgrow
  have hattach : (g.withPath 0 piecewiseChain).label? (g.growthOf 0 piecewiseChain).attach =
      some "<t>".toList := by decide +kernel
  have halternatives : (Grammar.merged? Grammar.piecewiseRules "<t>".toList).map Rule.alternatives =
      some ["x  y".toList, "xy".toList, "w".toList] := by decide +kernel
  obtain rfl := Option.some.inj (hlabel.symm.trans hattach)
  rw [hmerged] at halternatives
  refine ⟨hg, _, _, hgrow, rfl, hattach, ?_, ?_⟩
  · rw [hmerged, halternatives]
  · rw [← Option.some.inj halternatives]
    exact hfirst

end Derivation

end GrammarTree
