import GrammarTree.Grammar.Basic
import GrammarTree.Proofs.Grammar.RuleText

/-!
# Merged rules and their written forms

A merged rule has the name of the rules that it is made of, and all of their alternatives. So it can
be written wherever they can. This file proves that a rule is given back by its written form exactly
when it is restorable, and that no other rule is ever read or merged from rules that were read.

The conditions for being restorable are about the name and about each alternative on its own. That
is why merging keeps them, and why a merged rule never has to be taken apart again to say where its
alternatives stood.

What is here:

* `Grammar.exists_rule_of_merged?`, the rules that a merged rule is made of, with
  `Grammar.symbol_of_merged?` and `Grammar.mem_alternatives_of_merged?`, and the converse
  `Grammar.exists_merged?`;
* `Rule.restorable_of_read_toText`: a rule that its written form gives back is restorable;
* `Rule.read?_toText_iff`, for all rules, the rules that were read and the merged ones.
-/

set_option autoImplicit false

namespace GrammarTree

/-! ## The rules of a merged rule -/

namespace Grammar

variable {rules : List Rule} {symbol : Text} {r : Rule}

/-- The name of a merged rule and each of its alternatives come from a rule of its symbol. -/
theorem exists_rule_of_merged? (h : merged? rules symbol = some r) :
    (∃ rule ∈ rules, rule.symbol = symbol ∧ rule.name = r.name) ∧
      ∀ a ∈ r.alternatives, ∃ rule ∈ rules, rule.symbol = symbol ∧ a ∈ rule.alternatives := by
  rw [merged?] at h
  split at h
  · cases h
  · rename_i first rest hfilter
    cases h
    have hrules : ∀ rule ∈ first :: rest, rule ∈ rules ∧ rule.symbol = symbol := by
      intro rule hrule
      rw [← hfilter, List.mem_filter] at hrule
      exact ⟨hrule.1, of_decide_eq_true hrule.2⟩
    obtain ⟨hfirst, hsymbol⟩ := hrules first (List.mem_cons_self ..)
    refine ⟨⟨first, hfirst, hsymbol, rfl⟩, fun a ha => ?_⟩
    rw [Rule.alternatives, ← List.cons_append, List.mem_append, List.mem_flatMap] at ha
    rcases ha with ha | ⟨rule, hrule, ha⟩
    · exact ⟨first, hfirst, hsymbol, ha⟩
    · obtain ⟨hmem, hsymbol⟩ := hrules rule (List.mem_cons_of_mem _ hrule)
      exact ⟨rule, hmem, hsymbol, ha⟩

/-- There is a merged rule for the symbol of every rule. -/
theorem exists_merged? {rule : Rule} (h : rule ∈ rules) :
    ∃ r, merged? rules rule.symbol = some r := by
  rw [merged?]
  split
  · rename_i hnone
    exact absurd (decide_eq_true rfl) (List.filter_eq_nil_iff.1 hnone rule h)
  · exact ⟨_, rfl⟩

theorem symbol_of_merged? (h : merged? rules symbol = some r) : r.symbol = symbol := by
  obtain ⟨⟨rule, -, hsymbol, hname⟩, -⟩ := exists_rule_of_merged? h
  rw [Rule.symbol, ← hname, ← Rule.symbol, hsymbol]

/-- The alternatives of a merged rule are those of the rules. -/
theorem mem_alternatives_of_merged? (h : merged? rules symbol = some r) {a : Text}
    (ha : a ∈ r.alternatives) : ∃ rule ∈ rules, a ∈ rule.alternatives := by
  obtain ⟨rule, hrule, -, hmem⟩ := (exists_rule_of_merged? h).2 a ha
  exact ⟨rule, hrule, hmem⟩

theorem restorable_of_merged? (hrules : ∀ rule ∈ rules, rule.Restorable)
    (h : merged? rules symbol = some r) : r.Restorable := by
  obtain ⟨⟨rule, hrule, -, hname⟩, -⟩ := exists_rule_of_merged? h
  refine ⟨hname ▸ (hrules rule hrule).name, fun a ha => ?_⟩
  obtain ⟨rule, hrule, hmem⟩ := mem_alternatives_of_merged? h ha
  exact (hrules rule hrule).alternatives a hmem

end Grammar

/-! ## Rules that their written forms give back -/

namespace Rule

theorem read?_eq_some_iff {text : Text} {line : Option Int} {r : Rule} :
    read? text line = some r ↔ read text line = .ok r := by
  rw [read?]
  cases read text line <;> simp [Except.toOption]

/-- What was read is restorable, and to be so is a matter of the name and the alternatives. -/
theorem restorable_of_read_toText {r r' : Rule} {line : Option Int}
    (h : read? r.toText line = some r') (hname : r'.name = r.name)
    (halternatives : r'.alternatives = r.alternatives) : r.Restorable := by
  have hread := restorable_of_read (read?_eq_some_iff.1 h)
  exact ⟨hname ▸ hread.name, halternatives ▸ hread.alternatives⟩

/-- **The written form of a rule gives it back exactly when no separator stands in its name or in an
alternative and its alternatives are trimmed.** Every rule that was read is such a rule, and so is
every rule that is merged from rules that were read. -/
theorem read?_toText_iff :
    (∀ (r : Rule) (line : Option Int),
      (∃ r', read? r.toText line = some r' ∧ r'.name = r.name ∧
        r'.alternatives = r.alternatives) ↔ r.Restorable) ∧
    (∀ (text : Text) (line : Option Int) (r : Rule), read? text line = some r → r.Restorable) ∧
    ∀ rules : List (Option Rule), (∀ rule ∈ rules, ∃ text line, rule = read? text line) →
      ∀ symbol r, Grammar.merged? (Grammar.valid rules) symbol = some r → r.Restorable := by
  have hread : ∀ (text : Text) (line : Option Int) (r : Rule),
      read? text line = some r → r.Restorable :=
    fun text line r h => restorable_of_read (read?_eq_some_iff.1 h)
  refine ⟨fun r line => ⟨?_, fun h => ?_⟩, hread, fun rules hrules symbol r h => ?_⟩
  · rintro ⟨r', h, hname, halternatives⟩
    exact restorable_of_read_toText h hname halternatives
  · exact ⟨_, read?_eq_some_iff.2 (h.read_toText line), rfl, rfl⟩
  · refine Grammar.restorable_of_merged? (fun rule hrule => ?_) h
    obtain ⟨found, hfound, hsome⟩ := List.mem_filterMap.1 hrule
    obtain ⟨text, line, rfl⟩ := hrules found hfound
    exact hread text line rule hsome

end Rule

end GrammarTree
