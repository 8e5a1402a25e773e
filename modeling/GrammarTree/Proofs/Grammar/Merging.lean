import GrammarTree.Proofs.Grammar.SimplePath
import GrammarTree.Proofs.Grammar.Unnumbered
import GrammarTree.Proofs.Grammar.Values
import Mathlib.Data.List.Find

/-!
# Rules that merge into the same

All rules of one name count together as one merged rule. A name may therefore be defined at once or
piece by piece, and its definitions may stand before, between or after those of other names. This
file proves that the search of a chain depends on the merged rules and on nothing else, although an
index is filled in document order. There is one exception: a search that ends where it starts does
not look for producers, so that several rules may write the value that it has found, and the one
that stands first decides how the value is spelled.

The search reads four things off an index, and they are compared one by one. The symbols and the
producers are the same sets. The values are the same up to their order, which only shows when a
pattern matches several of them. The spelling of a value is the first alternative that has it, in
document order; if all of these belong to one symbol, it is the first one in the merged rule of this
symbol. A search that steps back from its seed has found out that there is only one such symbol.

What is here:

* `Grammar.SameMerged`, which is decidable, and what is the same for rules that merge into the same;
* `Chain.Agrees`, results of a search that are the same apart from the order of matching values, and
  `Chain.EndsAtSeed`, the searches that end where they start;
* `Grammar.searchChain_reads_merged_rules`: the searches agree, unless they end where they start and
  several rules write their seed.
-/

set_option autoImplicit false

namespace GrammarTree

namespace Grammar

/-! ## Alternatives by symbol -/

/-- The alternatives of all rules of a symbol, in document order. -/
def alternativesFor (rules : List Rule) (symbol : Text) : List Text :=
  (rules.filter fun r => r.symbol = symbol).flatMap Rule.alternatives

theorem alternativesFor_eq_merged? (rules : List Rule) (symbol : Text) :
    alternativesFor rules symbol = ((merged? rules symbol).map Rule.alternatives).getD [] := by
  rw [alternativesFor, merged?]
  cases rules.filter fun r => r.symbol = symbol with
  | nil => rfl
  | cons r rest => rfl

/-- What an index records for the rules of one symbol. -/
theorem filter_owned (rules : List Rule) (symbol : Text) :
    (Index.owned rules).filter (fun o => o.1 = symbol) =
      (alternativesFor rules symbol).map fun a => (symbol, a) := by
  induction rules with
  | nil => rfl
  | cons r rules ih =>
    rw [Index.owned] at ih ⊢
    rw [alternativesFor] at ih ⊢
    rw [List.flatMap_cons, List.filter_append, ih, List.filter_map, List.filter_cons]
    by_cases h : r.symbol = symbol
    · simp [h, Function.comp_def]
    · simp [h, Function.comp_def]

/-! ## The same merged rules

The relation is about all symbols, and is decided by looking at the symbols of the rules. For any
other symbol there is no merged rule on either side. -/

/-- Whether the rules of every name merge into the same in two lists. -/
def SameMerged (rules rules' : List Rule) : Prop :=
  ∀ name, merged? rules (symbolOf name) = merged? rules' (symbolOf name)

variable {rules rules' : List Rule}

theorem merged?_eq_none {symbol : Text} (h : ∀ r ∈ rules, r.symbol ≠ symbol) :
    merged? rules symbol = none := by
  have hnil : rules.filter (fun r => r.symbol = symbol) = [] := by
    rw [List.filter_eq_nil_iff]
    simpa using h
  rw [merged?, hnil]

/-- Only the symbols of the rules need to be looked up. -/
theorem sameMerged_iff :
    SameMerged rules rules' ↔
      ∀ r ∈ rules ++ rules', merged? rules r.symbol = merged? rules' r.symbol := by
  refine ⟨fun h r _ => h r.name, fun h name => ?_⟩
  by_cases hdefined : ∃ r ∈ rules ++ rules', r.symbol = symbolOf name
  · obtain ⟨r, hr, hsymbol⟩ := hdefined
    exact hsymbol ▸ h r hr
  · have hnone : ∀ r ∈ rules ++ rules', r.symbol ≠ symbolOf name := fun r hr hsymbol =>
      hdefined ⟨r, hr, hsymbol⟩
    rw [merged?_eq_none fun r hr => hnone r (List.mem_append_left _ hr),
      merged?_eq_none fun r hr => hnone r (List.mem_append_right _ hr)]

instance : DecidableRel SameMerged := fun _ _ => decidable_of_iff' _ sameMerged_iff

namespace SameMerged

theorem symm (h : SameMerged rules rules') : SameMerged rules' rules := fun name => (h name).symm

theorem alternativesFor (h : SameMerged rules rules') (r : Rule) :
    alternativesFor rules r.symbol = alternativesFor rules' r.symbol := by
  rw [alternativesFor_eq_merged?, alternativesFor_eq_merged?, Rule.symbol, h r.name]

theorem owned_subset (h : SameMerged rules rules') : Index.owned rules ⊆ Index.owned rules' := by
  intro o ho
  obtain ⟨r, -, hsymbol, -⟩ := Index.mem_owned.1 ho
  have hmem : o ∈ (Index.owned rules).filter fun o => o.1 = r.symbol :=
    List.mem_filter.2 ⟨ho, decide_eq_true hsymbol.symm⟩
  rw [filter_owned, h.alternativesFor r, ← filter_owned] at hmem
  exact List.mem_of_mem_filter hmem

theorem mem_owned (h : SameMerged rules rules') (o : Text × Text) :
    o ∈ Index.owned rules ↔ o ∈ Index.owned rules' :=
  ⟨fun ho => h.owned_subset ho, fun ho => h.symm.owned_subset ho⟩

/-! ## The same index -/

theorem mem_owners (h : SameMerged rules rules') (name : Text) :
    name ∈ (Index.ofRules rules).owners ↔ name ∈ (Index.ofRules rules').owners := by
  have hfirst : ∀ {rules : List Rule}, name ∈ (Index.ofRules rules).owners ↔
      ∃ a, (name, a) ∈ Index.owned rules := by
    intro rules
    constructor
    · intro hname
      obtain ⟨r, hr, hsymbol⟩ := List.mem_map.1 hname
      exact ⟨r.first, Index.mem_owned.2 ⟨r, hr, hsymbol, List.mem_cons_self ..⟩⟩
    · rintro ⟨a, ha⟩
      obtain ⟨r, hr, hsymbol, -⟩ := Index.mem_owned.1 ha
      exact List.mem_map.2 ⟨r, hr, hsymbol⟩
  simp only [hfirst, h.mem_owned]

theorem producers (h : SameMerged rules rules') (value : Text) :
    (Index.ofRules rules).producers value = (Index.ofRules rules').producers value := by
  have hproducers : ∀ {rules : List Rule} {name : Text},
      name ∈ (Index.ofRules rules).producers value ↔
        ∃ a, (name, a) ∈ Index.owned rules ∧ (Alternative.value a = value ∨
          (isPlaceholder value = true ∧ value ∈ Alternative.tokens a)) := by
    intro rules name
    rw [Index.mem_producers_ofRules]
    constructor
    · rintro ⟨r, hr, hsymbol, a, ha, hproduces⟩
      exact ⟨a, Index.mem_owned.2 ⟨r, hr, hsymbol, ha⟩, hproduces⟩
    · rintro ⟨a, howned, hproduces⟩
      obtain ⟨r, hr, hsymbol, ha⟩ := Index.mem_owned.1 howned
      exact ⟨r, hr, hsymbol, a, ha, hproduces⟩
  refine NameSet.eq_of_mem_iff fun name => ?_
  simp only [hproducers, h.mem_owned]

theorem values_perm (h : SameMerged rules rules') :
    (Index.ofRules rules).values.Perm (Index.ofRules rules').values := by
  refine (List.perm_ext_iff_of_nodup (Index.nodup_values_ofRules _)
    (Index.nodup_values_ofRules _)).2 fun value => ?_
  rw [Index.mem_values_ofRules, Index.mem_values_ofRules]
  simp only [h.mem_owned]

end SameMerged

/-- A value that only one symbol writes is spelled as the first of its alternatives that has it. -/
theorem spelling_of_sole_owner {value owner : Text}
    (h : ∀ o ∈ Index.owned rules, Alternative.value o.2 = value → o.1 = owner) :
    (Index.ofRules rules).spelling value =
      ((alternativesFor rules owner).find? fun a => Alternative.value a = value).getD value := by
  have hfor : alternativesFor rules owner =
      ((Index.owned rules).filter fun o => o.1 = owner).map Prod.snd := by
    rw [filter_owned, List.map_map]
    exact (List.map_id _).symm
  rw [Index.spelling_ofRules, ← Index.map_snd_owned, hfor, List.find?_map, List.find?_map,
    List.find?_filter]
  refine congrArg (fun o => (Option.map Prod.snd o).getD value) (List.find?_congr fun o ho => ?_)
  by_cases hvalue : Alternative.value o.2 = value
  · simp [hvalue, h o ho hvalue]
  · simp [hvalue]

end Grammar

/-! ## Results of a search

A search that steps back has only one rule to go to from its seed, and then the alternatives of the
seed all belong to this rule. The case that is left is a search that does not step back at all. -/

namespace Chain

/-- Two results of a search that agree on the chain, or on the fault. The values that a pattern
matches may be listed in another order. -/
inductive Agrees : Except PathFault Chain → Except PathFault Chain → Prop where
  /-- Both searches find the same chain. -/
  | found (c : Chain) : Agrees (.ok c) (.ok c)
  /-- The pattern matches the same values in both searches, and not just one. -/
  | seed (pattern : Text) {matching matching' : List Text} (h : matching.Perm matching') :
    Agrees (.error (.seed pattern matching)) (.error (.seed pattern matching'))
  /-- Both searches have the same fault. -/
  | fault (fault : PathFault) : Agrees (.error fault) (.error fault)

theorem Agrees.eq_ok {c : Chain} {result : Except PathFault Chain} (h : Agrees (.ok c) result) :
    result = .ok c := by
  cases h
  rfl

/-- A chain that ends at its seed, which is spelled as the first alternative that has its value. -/
structure EndsAtSeed (rules : List Rule) (target : Text) (c : Chain) : Prop where
  /-- The seed is the target. -/
  seed : c.seed = target
  /-- There is nothing above the seed. -/
  above : c.above = []
  /-- The alternative is the first one with this value. -/
  first : (rules.flatMap Rule.alternatives).find? (fun a => Alternative.value a = target) =
    some c.alternative

end Chain

/-- Whether rules of two symbols have an alternative with a value. -/
def WrittenBySeveral (rules : List Rule) (value : Text) : Prop :=
  ∃ r ∈ rules, ∃ s ∈ rules, r.symbol ≠ s.symbol ∧
    (∃ a ∈ r.alternatives, Alternative.value a = value) ∧
    ∃ a ∈ s.alternatives, Alternative.value a = value

variable {rules rules' : List Rule} {target pattern seed : Text}

theorem searchChain_of_seeds {i : Index} (h : seeds i pattern = [seed]) :
    searchChain i target pattern =
      match Chain.climb i target i.owners seed with
      | .ok above => .ok ⟨seed, i.spelling seed, above⟩
      | .error fault => .error fault := by
  rewrite [searchChain, h]
  rfl

theorem searchChain_of_forall_ne {i : Index} (h : ∀ seed, seeds i pattern ≠ [seed]) :
    searchChain i target pattern = .error (.seed pattern (seeds i pattern)) := by
  rw [searchChain]
  split
  · rename_i seed hseed
    exact absurd hseed (h seed)
  · rfl

/-- The first step back from a seed goes to the only symbol that writes it. -/
theorem eq_of_climb_cons {owner : Text} {rest : List Text}
    (h : Chain.climb (.ofRules rules) target (Index.ofRules rules).owners seed =
      .ok (owner :: rest)) {o : Text × Text} (ho : o ∈ Index.owned rules)
    (hvalue : Alternative.value o.2 = seed) : o.1 = owner := by
  obtain ⟨-, habove⟩ | ⟨_, _, -, habove, honly, -⟩ := Chain.climb_cases h
  · cases habove
  · cases habove
    obtain ⟨r, hr, hsymbol, ha⟩ := Index.mem_owned.1 ho
    have hproduces : o.1 ∈ (Index.ofRules rules).producers seed :=
      Index.mem_producers_ofRules.2 ⟨r, hr, hsymbol, o.2, ha, Or.inl hvalue⟩
    exact (honly o.1).1 ⟨hproduces, Index.mem_owners_of_mem_producers hproduces⟩

/-- A search that steps back from its seed has found the only symbol that writes it. -/
theorem sole_owner_of_climb {above : List Text}
    (h : Chain.climb (.ofRules rules) target (Index.ofRules rules).owners seed = .ok above) :
    (seed = target ∧ above = []) ∨
      ∃ owner, ∀ o ∈ Index.owned rules, Alternative.value o.2 = seed → o.1 = owner := by
  cases above with
  | nil =>
    obtain ⟨hseed, -⟩ | ⟨_, _, -, habove, -⟩ := Chain.climb_cases h
    · exact Or.inl ⟨hseed, rfl⟩
    · cases habove
  | cons owner rest => exact Or.inr ⟨owner, fun _ ho hvalue => eq_of_climb_cons h ho hvalue⟩

/-- A value without a sole owner is written by several rules. -/
theorem writtenBySeveral_of_no_sole_owner (hseed : seed ∈ (Index.ofRules rules).values)
    (h : ¬ ∃ owner, ∀ o ∈ Index.owned rules, Alternative.value o.2 = seed → o.1 = owner) :
    WrittenBySeveral rules seed := by
  obtain ⟨o, ho, hvalue⟩ := Index.mem_values_ofRules.1 hseed
  obtain ⟨o', ho', hvalue', hne⟩ : ∃ o' ∈ Index.owned rules,
      Alternative.value o'.2 = seed ∧ o'.1 ≠ o.1 := by
    by_contra hnone
    refine h ⟨o.1, fun o' ho' hvalue' => ?_⟩
    by_contra hne
    exact hnone ⟨o', ho', hvalue', hne⟩
  obtain ⟨r, hr, hsymbol, ha⟩ := Index.mem_owned.1 ho
  obtain ⟨s, hs, hsymbol', ha'⟩ := Index.mem_owned.1 ho'
  exact ⟨s, hs, r, hr, hsymbol ▸ hsymbol' ▸ hne, ⟨o'.2, ha', hvalue'⟩, ⟨o.2, ha, hvalue⟩⟩

namespace Grammar

theorem SameMerged.spelling_eq (h : SameMerged rules rules')
    (hseed : seed ∈ (Index.ofRules rules).values) {owner : Text}
    (howner : ∀ o ∈ Index.owned rules, Alternative.value o.2 = seed → o.1 = owner) :
    (Index.ofRules rules).spelling seed = (Index.ofRules rules').spelling seed := by
  have howner' : ∀ o ∈ Index.owned rules', Alternative.value o.2 = seed → o.1 = owner :=
    fun o ho => howner o ((h.mem_owned o).2 ho)
  obtain ⟨o, ho, hvalue⟩ := Index.mem_values_ofRules.1 hseed
  obtain ⟨r, -, hsymbol, -⟩ := Index.mem_owned.1 ho
  have hfor := h.alternativesFor r
  rw [hsymbol, howner o ho hvalue] at hfor
  rw [spelling_of_sole_owner howner, spelling_of_sole_owner howner', hfor]

/-- **The search of a chain reads the merged rules.** How the definitions of a name are split, and
where they stand among those of other names, makes no difference to its result, unless it ends at a
seed that several rules write: there the definition that comes first decides on the spelling. -/
theorem searchChain_reads_merged_rules (h : SameMerged rules rules') (target pattern : Text) :
    Chain.Agrees (searchChain (.ofRules rules) target pattern)
        (searchChain (.ofRules rules') target pattern) ∨
      ∃ c c', searchChain (.ofRules rules) target pattern = .ok c ∧
        searchChain (.ofRules rules') target pattern = .ok c' ∧
        c.EndsAtSeed rules target ∧ c'.EndsAtSeed rules' target ∧
        WrittenBySeveral rules target := by
  have hseeds : (seeds (.ofRules rules) pattern).Perm (seeds (.ofRules rules') pattern) :=
    h.values_perm.filter _
  by_cases hone : ∃ seed, seeds (.ofRules rules) pattern = [seed]
  · obtain ⟨seed, hseed⟩ := hone
    have hseed' : seeds (.ofRules rules') pattern = [seed] :=
      (List.singleton_perm.1 (hseed ▸ hseeds)).symm
    have hvalue : seed ∈ (Index.ofRules rules).values :=
      List.mem_of_mem_filter (hseed ▸ List.mem_singleton_self seed :
        seed ∈ seeds (.ofRules rules) pattern)
    have hvalue' : seed ∈ (Index.ofRules rules').values := h.values_perm.subset hvalue
    rw [searchChain_of_seeds hseed, searchChain_of_seeds hseed',
      ← Chain.climb_congr h.producers target h.mem_owners seed]
    cases hclimb : Chain.climb (.ofRules rules) target (Index.ofRules rules).owners seed with
    | error fault => exact Or.inl (.fault fault)
    | ok above =>
      by_cases hsole :
          ∃ owner, ∀ o ∈ Index.owned rules, Alternative.value o.2 = seed → o.1 = owner
      · obtain ⟨owner, howner⟩ := hsole
        rw [h.spelling_eq hvalue howner]
        exact Or.inl (.found _)
      · obtain ⟨rfl, rfl⟩ := (sole_owner_of_climb hclimb).resolve_right hsole
        exact Or.inr ⟨_, _, rfl, rfl, ⟨rfl, rfl, Index.find?_alternatives hvalue⟩,
          ⟨rfl, rfl, Index.find?_alternatives hvalue'⟩,
          writtenBySeveral_of_no_sole_owner hvalue hsole⟩
  · have hnone : ∀ seed, seeds (.ofRules rules) pattern ≠ [seed] := fun seed hseed =>
      hone ⟨seed, hseed⟩
    have hnone' : ∀ seed, seeds (.ofRules rules') pattern ≠ [seed] := fun seed hseed =>
      hnone seed (List.perm_singleton.1 (hseed ▸ hseeds))
    rw [searchChain_of_forall_ne hnone, searchChain_of_forall_ne hnone']
    exact Or.inl (.seed pattern hseeds)

/-- A grammar that defines one name in two pieces. -/
def piecewiseRules : List Rule :=
  Grammar.rules "<s> ::= <t> | z\n<t> ::= x  y\n<t> ::= xy | w".toList

/-- The same definitions, split and joined and in another order. -/
def rearrangedRules : List Rule :=
  Grammar.rules "<t> ::= x  y | xy | w\n<s> ::= <t>\n<s> ::= z".toList

/-- The value with two spellings is found along the same chain, with the spelling that comes first
among the alternatives of its symbol. -/
theorem searchChain_reads_merged_rules_of_piecewiseRules :
    SameMerged piecewiseRules rearrangedRules ∧
      searchChain (.ofRules rearrangedRules) "<s>".toList "xy".toList =
        searchChain (.ofRules piecewiseRules) "<s>".toList "xy".toList := by
  have hsame : SameMerged piecewiseRules rearrangedRules := by decide +kernel
  have hfound : searchChain (.ofRules piecewiseRules) "<s>".toList "xy".toList =
      .ok ⟨"xy".toList, "x  y".toList, ["<t>".toList, "<s>".toList]⟩ := by decide +kernel
  refine ⟨hsame, ?_⟩
  obtain hagrees | ⟨c, -, hc, -, hends, -⟩ :=
    searchChain_reads_merged_rules hsame "<s>".toList "xy".toList
  · rw [hfound] at hagrees ⊢
    exact hagrees.eq_ok
  · rw [hfound] at hc
    cases hc
    exact absurd hends.seed (by decide)

/-- The exception is needed: which of two rules stands first decides how a seed is spelled that is
the target itself. -/
theorem not_forall_agrees_of_sameMerged :
    ¬ ∀ (rules rules' : List Rule), SameMerged rules rules' → ∀ target pattern : Text,
      Chain.Agrees (searchChain (.ofRules rules) target pattern)
        (searchChain (.ofRules rules') target pattern) := by
  intro h
  have hagrees := h (Grammar.rules "<a> ::= x y\n<b> ::= xy".toList)
    (Grammar.rules "<b> ::= xy\n<a> ::= x y".toList) (by decide +kernel) "xy".toList "xy".toList
  have hapart : searchChain (.ofRules (Grammar.rules "<a> ::= x y\n<b> ::= xy".toList))
      "xy".toList "xy".toList = .ok ⟨"xy".toList, "x y".toList, []⟩ := by decide +kernel
  have htogether : searchChain (.ofRules (Grammar.rules "<b> ::= xy\n<a> ::= x y".toList))
      "xy".toList "xy".toList = .ok ⟨"xy".toList, "xy".toList, []⟩ := by decide +kernel
  rw [hapart] at hagrees
  exact absurd (htogether.symm.trans hagrees.eq_ok) (by decide)

end Grammar

end GrammarTree
