import GrammarTree.Proofs.Derivation.Extension
import GrammarTree.Proofs.Derivation.History
import GrammarTree.Proofs.Grammar.Step

/-!
# What a path adds

A path is grown below a node along a chain of the grammar: one node below the other for the
intermediate values of the chain, and the tokens of its alternative below the last of them. This
file says what a derivation holds afterwards, which nodes still have to be worked on, and that the
new nodes follow the rules.

A path has two halves, and they are put together in `Derivation.AddsPath`, a structure with one
field for each thing that a path changes. The halves meet at the node that gets the tokens. This is
the last intermediate node, or the source where there is none, and the statements about incomplete
nodes depend on whether there is a token at all: without one, this node is what is left to do.

That the new nodes follow the rules has an exception. An index finds a rule for a placeholder by the
tokens of its alternatives, and also by the values, which hold no blanks. An alternative such as `<
a>` has two tokens and the value `<a>`, so that a chain may pass from it to the placeholder. Such a
step is spelled out by the tokens and is not a step of the rules; the last section has an example.

What is here:

* `Derivation.AddsPath`, all that a path changes;
* `Derivation.growPath_adds_path`: a path is added as a whole, or nothing changes;
* `Derivation.growPath_follows_rules`: every intermediate node is a step of a rule, or one that the
  tokens of an alternative spell out;
* `Derivation.not_forall_isStep_of_growPath`: the second kind of step does occur.
-/

set_option autoImplicit false

namespace GrammarTree

namespace Derivation

variable {g : Derivation}

/-- What a path has added to a derivation. -/
structure AddsPath (g : Derivation) (r : Growth) (g' : Derivation) : Prop where
  /-- The nodes have the next numbers, the intermediate ones first. -/
  numbers : r.spine ++ r.leaves =
    g.newIds (r.chain.intermediates.length + (Alternative.tokens r.chain.alternative).length)
  /-- The next number is the one after these. -/
  next_eq : g'.next =
    g.next + (r.chain.intermediates.length + (Alternative.tokens r.chain.alternative).length)
  /-- There are no other new nodes. -/
  contains_iff : ∀ x, g'.contains x = true ↔ g.contains x = true ∨ x ∈ r.spine ++ r.leaves
  /-- The old nodes are as they were. -/
  kept : ∀ x, g.contains x = true → g'.label? x = g.label? x ∧ g'.parent? x = g.parent? x
  /-- The intermediate nodes carry the non-terminals of the chain from above. -/
  spine_labels : r.spine.map g'.label? = r.chain.intermediates.map some
  /-- The intermediate nodes hang one below the other, the first below the source. -/
  spine_parents : r.spine.map g'.parent? = (r.source :: r.spine).dropLast.map some
  /-- The other nodes carry the tokens of the alternative in written order. -/
  leaf_labels : r.leaves.map g'.label? = (Alternative.tokens r.chain.alternative).map some
  /-- The other nodes hang from the last intermediate node, or from the source. -/
  leaf_parents : ∀ x ∈ r.leaves, g'.parent? x = some r.attach
  /-- The placeholders among the other nodes are reported. -/
  unfinished_eq : r.unfinished = g'.placeholders r.leaves
  /-- With tokens, exactly the reported nodes are newly incomplete. -/
  incomplete_of_leaves : r.leaves ≠ [] →
    ∀ x, x ∈ g'.incomplete ↔ (x ∈ g.incomplete ∧ x ≠ r.source) ∨ x ∈ r.unfinished
  /-- Without tokens, the last intermediate node is the one newly incomplete. -/
  incomplete_of_spine : r.leaves = [] → r.spine ≠ [] →
    ∀ x, x ∈ g'.incomplete ↔ (x ∈ g.incomplete ∧ x ≠ r.source) ∨ r.spine.getLast? = some x
  /-- Without any new node nothing changes. -/
  unchanged : r.spine = [] → r.leaves = [] → g' = g

/-! ## The derivation with a path -/

theorem newIds_eq_nil {count : Nat} : g.newIds count = [] ↔ count = 0 := by
  rw [← List.length_eq_zero_iff, length_newIds]

theorem extends_withPath_of_spine (g : Derivation) (source : NodeId) (chain : Chain) :
    (g.withDescendants source chain.intermediates).Extends (g.withPath source chain) :=
  extends_withChildren _ _

theorem extends_withPath (g : Derivation) (source : NodeId) (chain : Chain) :
    g.Extends (g.withPath source chain) :=
  (extends_withDescendants source _).trans (g.extends_withPath_of_spine source chain)

namespace IsForest

variable {source : NodeId} {chain : Chain}

theorem contains_eq_false_of_mem_newIds (hg : g.IsForest) {count : Nat} {x : NodeId}
    (hx : x ∈ g.newIds count) : g.contains x = false := by
  obtain ⟨n, hn, rfl⟩ := List.mem_map.1 hx
  have hnext := (List.mem_range'_1.1 hn).1
  by_contra hcontains
  have hbound := (hg.bounded _ (Bool.not_eq_false _ ▸ hcontains)).2
  omega

/-- Above the node that gets the tokens, a path only takes the source off the incomplete nodes. -/
theorem mem_incomplete_above_attach (hg : g.IsForest) (hsource : g.contains source = true)
    (hlabels : ∀ label ∈ chain.intermediates, GrammarTree.isPlaceholder label = true)
    (x : NodeId) :
    x ∈ (g.withDescendants source chain.intermediates).incomplete ∧ x ≠ g.attachOf source chain ↔
      x ∈ g.incomplete ∧ x ≠ source := by
  by_cases hne : chain.intermediates = []
  · rw [attachOf, hne]
    rfl
  · obtain ⟨last, hlast⟩ : ∃ last, (g.newIds chain.intermediates.length).getLast? = some last := by
      rw [← Option.isSome_iff_exists, List.getLast?_isSome]
      exact mt newIds_eq_nil.1 (mt List.length_eq_zero_iff.1 hne)
    rw [hg.mem_incomplete_withDescendants hsource hlabels hne, attachOf, hlast, Option.getD_some]
    constructor
    · rintro ⟨h | h, hx⟩
      · exact h
      · exact absurd (Option.some.inj h).symm hx
    · intro h
      refine ⟨Or.inl h, ?_⟩
      rintro rfl
      have hold := hg.contains_of_mem_incomplete h.1
      rw [hg.contains_eq_false_of_mem_newIds (List.mem_of_getLast? hlast)] at hold
      cases hold

/-- A path adds what its growth says. -/
theorem addsPath_withPath (hg : g.IsForest) (hsource : g.contains source = true)
    (hlabels : ∀ label ∈ chain.intermediates, GrammarTree.isPlaceholder label = true) :
    AddsPath g (g.growthOf source chain) (g.withPath source chain) := by
  have hspine := hg.withDescendants hsource chain.intermediates
  have hattach := hg.contains_attachOf hsource chain
  have hextends := g.extends_withPath_of_spine source chain
  have hnew : ∀ x ∈ g.newIds chain.intermediates.length,
      (g.withDescendants source chain.intermediates).contains x = true := fun x hx =>
    (hg.contains_withDescendants hsource _).2 (Or.inr hx)
  refine
    { numbers := newIds_append _ _ (next_withDescendants source _)
      next_eq := ?_
      contains_iff := fun x => ?_
      kept := fun x hx => ?_
      spine_labels := ?_
      spine_parents := ?_
      leaf_labels := hspine.label?_withChildren hattach _
      leaf_parents := fun x hx => hspine.parent?_withChildren hattach hx
      unfinished_eq := rfl
      incomplete_of_leaves := fun hleaves x => ?_
      incomplete_of_spine := fun hleaves hne x => ?_
      unchanged := fun hnil hleaves => ?_ }
  · rw [Derivation.withPath, next_withChildren, next_withDescendants, Nat.add_assoc]
    rfl
  · rw [Derivation.withPath, hspine.contains_withChildren hattach,
      hg.contains_withDescendants hsource, or_assoc, ← List.mem_append]
    rfl
  · have hold := g.extends_withPath source chain
    exact ⟨hold.label?_eq hx, hold.parent?_eq hx⟩
  · refine Eq.trans (List.map_congr_left fun x hx => hextends.label?_eq (hnew x hx)) ?_
    exact hg.label?_withDescendants hsource _
  · refine Eq.trans (List.map_congr_left fun x hx => hextends.parent?_eq (hnew x hx)) ?_
    exact hg.parent?_withDescendants hsource _
  · have htokens : Alternative.tokens chain.alternative ≠ [] := by
      rintro htokens
      exact hleaves (newIds_eq_nil.2 (List.length_eq_zero_iff.2 htokens))
    rw [Derivation.withPath, hspine.mem_incomplete_withChildren hattach]
    refine or_congr_left (Iff.trans ?_ (hg.mem_incomplete_above_attach hsource hlabels x))
    exact and_congr_right fun _ => ⟨fun h => h htokens, fun h _ => h⟩
  · have htokens := List.length_eq_zero_iff.1 (newIds_eq_nil.1 hleaves)
    have hintermediates : chain.intermediates ≠ [] := fun h =>
      hne (newIds_eq_nil.2 (List.length_eq_zero_iff.2 h))
    rw [Derivation.withPath, htokens]
    exact hg.mem_incomplete_withDescendants hsource hlabels hintermediates x
  · have htokens := List.length_eq_zero_iff.1 (newIds_eq_nil.1 hleaves)
    have hintermediates := List.length_eq_zero_iff.1 (newIds_eq_nil.1 hnil)
    rw [Derivation.withPath, htokens, hintermediates]
    rfl

end IsForest

/-! ## Grown paths -/

theorem chainFrom_eq_ok {i : Index} {source : NodeId} {pattern : Text} {chain : Chain}
    (h : g.chainFrom i source pattern = .ok chain) :
    ∃ label, g.label? source = some label ∧ searchChain i label pattern = .ok chain ∧
      chain.above ≠ [] := by
  rw [chainFrom] at h
  split at h
  · cases h
  · rename_i label hlabel
    split at h
    · cases h
    · split at h
      · cases h
      · rename_i found hfound
        split at h
        · cases h
        · rename_i hne
          cases h
          exact ⟨label, hlabel, hfound, hne⟩

/-- **A path is added as a whole or not at all.** -/
theorem growPath_adds_path (hg : g.Reachable) (rules : List Rule) (source : NodeId)
    (pattern : Text) :
    match growPath (.ofRules rules) source pattern g with
    | .ok r g' => r.source = source ∧ g.chainFrom (.ofRules rules) source pattern = .ok r.chain ∧
        AddsPath g r g'
    | .error _ g' => g' = g := by
  rw [growPath_eq hg.isForest]
  cases hchain : g.chainFrom (.ofRules rules) source pattern with
  | error e => rfl
  | ok chain =>
    obtain ⟨label, -, hsearch, -⟩ := chainFrom_eq_ok hchain
    exact ⟨rfl, rfl, hg.isForest.addsPath_withPath (contains_of_chainFrom hchain)
      (isPlaceholder_of_mem_intermediates hsearch)⟩

/-- Rules with an alternative of two tokens and one of none below the start. -/
def twoTokenRules : List Rule :=
  Grammar.rules "<s> ::= <t>\n<t> ::= go <u> | x | | y\n<u> ::= z".toList

/-- With two tokens the placeholder among them is newly incomplete, without tokens the node that
got none, and an unknown source changes nothing. -/
theorem growPath_adds_path_of_two_tokens :
    let g := play [.newNode "<s>".toList] empty
    g.Reachable ∧
      (∃ r g', growPath (.ofRules twoTokenRules) 0 "go".toList g = .ok r g' ∧ r.spine = [1] ∧
        r.leaves = [2, 3] ∧ ∀ x, x ∈ g'.incomplete ↔ (x ∈ g.incomplete ∧ x ≠ 0) ∨ x = 3) ∧
      (∃ r g', growPath (.ofRules twoTokenRules) 0 "\"\"".toList g = .ok r g' ∧ r.spine = [1] ∧
        r.leaves = [] ∧ ∀ x, x ∈ g'.incomplete ↔ (x ∈ g.incomplete ∧ x ≠ 0) ∨ x = 1) ∧
      ∃ e, growPath (.ofRules twoTokenRules) 7 "go".toList g = .error e g := by
  intro g
  have hg : g.Reachable := ⟨_, rfl⟩
  refine ⟨hg, ?_, ?_, ?_⟩
  · have hchain : g.chainFrom (.ofRules twoTokenRules) 0 "go".toList =
        .ok ⟨"go<u>".toList, "go <u>".toList, ["<t>".toList, "<s>".toList]⟩ := by decide +kernel
    have hgrow := growPath_eq hg.isForest (.ofRules twoTokenRules) 0 "go".toList
    have hadds := growPath_adds_path hg twoTokenRules 0 "go".toList
    rw [hchain] at hgrow
    rw [hgrow] at hadds
    have hunfinished : (g.growthOf 0 ⟨"go<u>".toList, "go <u>".toList,
        ["<t>".toList, "<s>".toList]⟩).unfinished = [3] := by decide +kernel
    refine ⟨_, _, hgrow, by decide +kernel, by decide +kernel, fun x => ?_⟩
    rw [hadds.2.2.incomplete_of_leaves (by decide +kernel), hunfinished, List.mem_singleton]
    rfl
  · have hchain : g.chainFrom (.ofRules twoTokenRules) 0 "\"\"".toList =
        .ok ⟨[], [], ["<t>".toList, "<s>".toList]⟩ := by decide +kernel
    have hgrow := growPath_eq hg.isForest (.ofRules twoTokenRules) 0 "\"\"".toList
    have hadds := growPath_adds_path hg twoTokenRules 0 "\"\"".toList
    rw [hchain] at hgrow
    rw [hgrow] at hadds
    have hlast : (g.growthOf 0 ⟨[], [], ["<t>".toList, "<s>".toList]⟩).spine.getLast? = some 1 := by
      decide +kernel
    refine ⟨_, _, hgrow, by decide +kernel, by decide +kernel, fun x => ?_⟩
    rw [hadds.2.2.incomplete_of_spine (by decide +kernel) (by decide +kernel), hlast,
      Option.some_inj, @eq_comm _ 1 x]
    rfl
  · have hunknown : g.chainFrom (.ofRules twoTokenRules) 7 "go".toList =
        .error (.noSuchNode 7 "find a path from".toList) := by decide +kernel
    have hgrow := growPath_eq hg.isForest (.ofRules twoTokenRules) 7 "go".toList
    rw [hunknown] at hgrow
    exact ⟨_, hgrow⟩

/-- **The intermediate nodes of a path follow the rules.** -/
theorem growPath_follows_rules (hg : g.Reachable) (rules : List Rule) (source : NodeId)
    (pattern : Text) {r : Growth} {g' : Derivation}
    (h : growPath (.ofRules rules) source pattern g = .ok r g') :
    ∀ x ∈ r.spine, ∃ above upper lower, g'.parent? x = some above ∧
      (above = source ∨ above ∈ r.spine) ∧ g'.label? above = some upper ∧
      g'.label? x = some lower ∧ (IsStep rules upper lower ∨ IsSpelledStep rules upper lower) := by
  rw [growPath_eq hg.isForest] at h
  cases hchain : g.chainFrom (.ofRules rules) source pattern with
  | error e =>
    rw [hchain] at h
    cases h
  | ok chain =>
    rw [hchain] at h
    cases h
    obtain ⟨label, hlabel, hsearch, hne⟩ := chainFrom_eq_ok hchain
    have hspine := hg.isForest.chained_withDescendants hlabel (isChain_of_searchChain hsearch hne)
    have hextends := g.extends_withPath_of_spine source chain
    intro x hx
    obtain ⟨above, upper, lower, hparent, habove, hupper, hlower, hstep⟩ := hspine x hx
    refine ⟨above, upper, lower, ?_, habove, ?_, ?_, hstep⟩
    · rw [hextends.parent?_eq (contains_of_parent? hparent), hparent]
    · rw [hextends.label?_eq (contains_of_label? hupper), hupper]
    · rw [hextends.label?_eq (contains_of_label? hlower), hlower]

/-! ### A step that is spelled out -/

/-- Rules where a blank behind a bracket keeps a non-terminal from being a token. -/
def spacedRules : List Rule :=
  Grammar.rules "<p> ::= < a>\n<a> ::= x".toList

/-- The start that these rules expand. -/
def spacedSource : Derivation := play [.newNode "<p>".toList] empty

/-- The chain from the start down to `x`. -/
def spacedChain : Chain := ⟨"x".toList, "x".toList, ["<a>".toList, "<p>".toList]⟩

theorem reachable_spacedSource : spacedSource.Reachable := ⟨_, rfl⟩

theorem growPath_spacedRules : growPath (.ofRules spacedRules) 0 "x".toList spacedSource =
    .ok (spacedSource.growthOf 0 spacedChain) (spacedSource.withPath 0 spacedChain) := by
  have hchain : spacedSource.chainFrom (.ofRules spacedRules) 0 "x".toList = .ok spacedChain := by
    decide +kernel
  rw [growPath_eq reachable_spacedSource.isForest, hchain]

theorem labels_spacedRules {above : NodeId} {upper lower : Text}
    (hparent : (spacedSource.withPath 0 spacedChain).parent? 1 = some above)
    (hupper : (spacedSource.withPath 0 spacedChain).label? above = some upper)
    (hlower : (spacedSource.withPath 0 spacedChain).label? 1 = some lower) :
    upper = "<p>".toList ∧ lower = "<a>".toList := by
  have hzero : (spacedSource.withPath 0 spacedChain).parent? 1 = some 0 := by decide +kernel
  obtain rfl := Option.some.inj (hparent.symm.trans hzero)
  have hp : (spacedSource.withPath 0 spacedChain).label? 0 = some "<p>".toList := by decide +kernel
  have ha : (spacedSource.withPath 0 spacedChain).label? 1 = some "<a>".toList := by decide +kernel
  exact ⟨Option.some.inj (hupper.symm.trans hp), Option.some.inj (hlower.symm.trans ha)⟩

theorem not_isStep_spacedRules : ¬ IsStep spacedRules "<p>".toList "<a>".toList := by
  decide +kernel

/-- The one intermediate node follows the rules by being spelled out. -/
theorem growPath_follows_rules_of_spacedRules :
    spacedSource.Reachable ∧ ∃ r g', growPath (.ofRules spacedRules) 0 "x".toList spacedSource =
      .ok r g' ∧ r.spine = [1] ∧ IsSpelledStep spacedRules "<p>".toList "<a>".toList := by
  refine ⟨reachable_spacedSource, _, _, growPath_spacedRules, by decide +kernel, ?_⟩
  obtain ⟨above, upper, lower, hparent, -, hupper, hlower, hstep⟩ := growPath_follows_rules
    reachable_spacedSource spacedRules 0 "x".toList growPath_spacedRules 1 (by decide +kernel)
  obtain ⟨rfl, rfl⟩ := labels_spacedRules hparent hupper hlower
  exact hstep.resolve_left not_isStep_spacedRules

/-- An intermediate node need not be among the tokens of any alternative for the label above it. -/
theorem not_forall_isStep_of_growPath :
    spacedSource.Reachable ∧ ∃ r g', growPath (.ofRules spacedRules) 0 "x".toList spacedSource =
      .ok r g' ∧ ¬ ∀ x ∈ r.spine, ∃ above upper lower, g'.parent? x = some above ∧
        (above = 0 ∨ above ∈ r.spine) ∧ g'.label? above = some upper ∧
        g'.label? x = some lower ∧ IsStep spacedRules upper lower := by
  refine ⟨reachable_spacedSource, _, _, growPath_spacedRules, fun h => ?_⟩
  obtain ⟨above, upper, lower, hparent, -, hupper, hlower, hstep⟩ := h 1 (by decide +kernel)
  obtain ⟨rfl, rfl⟩ := labels_spacedRules hparent hupper hlower
  exact not_isStep_spacedRules hstep

end Derivation

end GrammarTree
