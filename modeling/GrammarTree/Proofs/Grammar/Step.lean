import GrammarTree.Proofs.Grammar.RuleText
import GrammarTree.Proofs.Grammar.SimplePath
import GrammarTree.Proofs.Grammar.Tokens

/-!
# The steps of a chain

A chain goes from a label down to a value along producers. A rule is a producer of a non-terminal
when it has it as a token, but also when the tokens of an alternative spell it out. This file says
which steps of a derivation a chain is therefore made of.

A chain is found from its seed upwards and grown from its target downwards. The intermediate values
are turned round for that, and the relation between two neighbours with them. All of them are
symbols of rules, which makes them placeholders, so that the two kinds of steps are the only ones
between them.

What is here:

* `IsStep` and `IsSpelledStep`, the two kinds of steps from a label to a non-terminal;
* `isStep_or_isSpelledStep`: a producer of a non-terminal leads there by one of them;
* `isChain_of_searchChain`: the non-terminals of a chain that is found are such steps, one below the
  other.
-/

set_option autoImplicit false

namespace GrammarTree

/-! ## Two kinds of steps -/

/-- Whether a rule for one label has an alternative with the other one among its tokens. -/
def IsStep (rules : List Rule) (upper lower : Text) : Prop :=
  ∃ rule ∈ rules, rule.symbol = upper ∧ ∃ a ∈ rule.alternatives, lower ∈ Alternative.tokens a

/-- Whether a rule for one label has an alternative whose tokens spell out the other one. -/
def IsSpelledStep (rules : List Rule) (upper lower : Text) : Prop :=
  ∃ rule ∈ rules, rule.symbol = upper ∧ ∃ a ∈ rule.alternatives, Alternative.SpellsOut a lower

instance (rules : List Rule) (upper lower : Text) : Decidable (IsStep rules upper lower) :=
  inferInstanceAs (Decidable (∃ rule ∈ rules, rule.symbol = upper ∧
    ∃ a ∈ rule.alternatives, lower ∈ Alternative.tokens a))

theorem isStep_or_isSpelledStep {rules : List Rule} {upper lower : Text}
    (hlower : isPlaceholder lower = true) (h : upper ∈ (Index.ofRules rules).producers lower) :
    IsStep rules upper lower ∨ IsSpelledStep rules upper lower := by
  obtain ⟨rule, hrule, hsymbol, a, ha, hvalue | ⟨-, htoken⟩⟩ := Index.mem_producers_ofRules.1 h
  · rcases Alternative.mem_tokens_or_spellsOut hlower hvalue with htoken | hspells
    · exact Or.inl ⟨rule, hrule, hsymbol, a, ha, htoken⟩
    · exact Or.inr ⟨rule, hrule, hsymbol, a, ha, hspells⟩
  · exact Or.inl ⟨rule, hrule, hsymbol, a, ha, htoken⟩

/-! ## Chains from the target down -/

namespace Chain

/-- Below the target stand the intermediate values. -/
theorem reverse_above {c : Chain} {target : Text} (h : c.values.getLast? = some target)
    (hne : c.above ≠ []) : c.above.reverse = target :: c.intermediates := by
  obtain ⟨front, last, habove⟩ := (List.eq_nil_or_concat c.above).resolve_left hne
  rw [values, habove, List.concat_eq_append, ← List.cons_append, List.getLast?_concat] at h
  rw [intermediates, habove, List.concat_eq_append, List.reverse_concat, List.dropLast_concat,
    Option.some.inj h]

end Chain

/-- The intermediate values are symbols of rules. -/
theorem exists_rule_of_mem_intermediates {rules : List Rule} {target pattern : Text} {c : Chain}
    (h : searchChain (.ofRules rules) target pattern = .ok c) :
    ∀ label ∈ c.intermediates, ∃ rule ∈ rules, rule.symbol = label := by
  intro label hlabel
  have habove : label ∈ c.above := List.mem_of_mem_dropLast (List.mem_reverse.1 hlabel)
  have hsteps := (Chain.isSimplePath_of_climb (searchChain_eq_ok h).2).steps
  exact List.mem_map.1 (mem_owners_of_isChain hsteps label habove)

theorem isPlaceholder_of_mem_intermediates {rules : List Rule} {target pattern : Text} {c : Chain}
    (h : searchChain (.ofRules rules) target pattern = .ok c) :
    ∀ label ∈ c.intermediates, isPlaceholder label = true := by
  intro label hlabel
  obtain ⟨rule, -, rfl⟩ := exists_rule_of_mem_intermediates h label hlabel
  exact rule.isPlaceholder_symbol

/-- The alternative of a chain is written in some rule. -/
theorem exists_rule_of_alternative {rules : List Rule} {target pattern : Text} {c : Chain}
    (h : searchChain (.ofRules rules) target pattern = .ok c) :
    ∃ rule ∈ rules, c.alternative ∈ rule.alternatives := by
  have hseed : c.seed ∈ seeds (.ofRules rules) pattern := by
    rw [(searchChain_eq_ok h).1]
    exact List.mem_singleton_self _
  obtain ⟨rule, hrule, halternative, -⟩ :=
    Index.exists_spelling_ofRules (List.mem_of_mem_filter hseed)
  exact ⟨rule, hrule, alternative_of_searchChain h ▸ halternative⟩

/-- From the target down, each non-terminal of a chain is a step below the one above it. -/
theorem isChain_of_searchChain {rules : List Rule} {target pattern : Text} {c : Chain}
    (h : searchChain (.ofRules rules) target pattern = .ok c) (hne : c.above ≠ []) :
    (target :: c.intermediates).IsChain fun upper lower =>
      IsStep rules upper lower ∨ IsSpelledStep rules upper lower := by
  have hpath := Chain.isSimplePath_of_climb (searchChain_eq_ok h).2
  have hproducers : (target :: c.intermediates).IsChain fun upper lower =>
      upper ∈ (Index.ofRules rules).producers lower := by
    rw [← Chain.reverse_above hpath.ends hne, List.isChain_reverse]
    exact hpath.steps.tail
  refine hproducers.imp_of_mem_tail_imp fun upper lower _ hlower => ?_
  exact isStep_or_isSpelledStep (isPlaceholder_of_mem_intermediates h lower hlower)

end GrammarTree
