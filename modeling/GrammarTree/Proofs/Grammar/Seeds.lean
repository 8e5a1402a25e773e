import GrammarTree.Proofs.Grammar.Merging
import GrammarTree.Proofs.Grammar.SearchKey

/-!
# Values picked by their own text

A search starts from the one value that its pattern matches. A grammar may write values that contain
each other, values with quotes at their ends and values with brackets that belong to no
non-terminal. This file proves that an alternative between double quotes picks its own value all the
same, however the alternative is written and whatever other values there are.

An exact pattern matches one text, and an index lists each value once. So a search for a text in
double quotes has at most one seed, and what is left to prove is that it is the value of the text.
The key of the pattern is its text read as an alternative; for an alternative of the rules this is
its value, and a value is its own value, so that it may be given in either form.

What is here:

* `seeds_eq_singleton_iff`: a pattern picks a value when it matches this value and no other;
* `searchKey_exact`: the key of a text in double quotes is its value in double quotes;
* `Chain.climb_ne_seed`: a fault behind the seed does not blame the pattern;
* `searchChain_starts_at_quoted`: an alternative in double quotes picks its value.
-/

set_option autoImplicit false

namespace GrammarTree

variable {rules : List Rule} {pattern seed target a : Text}

/-! ## Seeds -/

theorem mem_seeds {i : Index} {value : Text} :
    value ∈ seeds i pattern ↔
      value ∈ i.values ∧ matchesPattern (searchKey pattern) value = true := by
  rw [seeds, List.mem_filter]

theorem nodup_seeds (rules : List Rule) (pattern : Text) :
    (seeds (.ofRules rules) pattern).Nodup :=
  (Index.nodup_values_ofRules rules).filter _

/-- A pattern picks a value when it matches this value and no other one. -/
theorem seeds_eq_singleton_iff :
    seeds (.ofRules rules) pattern = [seed] ↔
      ∀ value, value ∈ (Index.ofRules rules).values ∧
        matchesPattern (searchKey pattern) value = true ↔ value = seed := by
  rw [← List.perm_singleton,
    List.perm_ext_iff_of_nodup (nodup_seeds rules pattern) (List.nodup_singleton seed)]
  simp only [mem_seeds, List.mem_singleton]

/-! ## Texts in double quotes

The quotes are taken off before the text is read as an alternative and put back after it, so that
they can never join a token of the text. -/

/-- The key of a text in double quotes is the value of the text in double quotes. -/
theorem searchKey_exact (a : Text) :
    searchKey (Pattern.exact a).toText = (Pattern.exact (Alternative.value a)).toText := by
  rw [searchKey, Pattern.ofText_toText_exact, Pattern.squeeze]

/-- A text in double quotes picks the value of the text, if the rules write it. -/
theorem seeds_exact (h : Alternative.value a ∈ (Index.ofRules rules).values) :
    seeds (.ofRules rules) (Pattern.exact a).toText = [Alternative.value a] := by
  refine seeds_eq_singleton_iff.2 fun value => ?_
  rw [searchKey_exact, matchesPattern_toText_exact]
  exact ⟨And.right, fun heq => ⟨heq ▸ h, heq⟩⟩

/-- Once the seed is found, no fault blames the pattern. -/
theorem Chain.climb_ne_seed {i : Index} {unused matching : List Text} {value : Text} :
    climb i target unused value ≠ .error (.seed pattern matching) := by
  fun_induction climb i target unused value with
  | case1 unused => simp
  | case2 unused value hvalue hnone => simp
  | case3 unused value hvalue hsome next hnext above habove ih => simp
  | case4 unused value hvalue hsome next hnext fault hfault ih => rwa [hfault] at ih
  | case5 unused value hvalue hsome hseveral => simp

/-- **An alternative in double quotes picks its own value.** This holds for every alternative as it
is written and for every value, with whatever quotes, brackets and blanks. A search for it always
has its seed: it finds a chain from there, or its fault lies behind the seed. -/
theorem searchChain_starts_at_quoted (rules : List Rule) (a : Text)
    (h : (∃ r ∈ rules, a ∈ r.alternatives) ∨ a ∈ (Index.ofRules rules).values) :
    seeds (.ofRules rules) ('"' :: a ++ ['"']) = [Alternative.value a] ∧
    ∀ target,
      (∀ c, searchChain (.ofRules rules) target ('"' :: a ++ ['"']) = .ok c →
        c.seed = Alternative.value a) ∧
      ∀ pattern matching, searchChain (.ofRules rules) target ('"' :: a ++ ['"']) ≠
        .error (.seed pattern matching) := by
  have hvalue : Alternative.value a ∈ (Index.ofRules rules).values := by
    rcases h with ⟨r, hr, ha⟩ | hvalue
    · exact Index.mem_values_ofRules.2 ⟨(r.symbol, a), Index.mem_owned.2 ⟨r, hr, rfl, ha⟩, rfl⟩
    · obtain ⟨o, ho, rfl⟩ := Index.mem_values_ofRules.1 hvalue
      rwa [Alternative.value_value]
  have hseeds : seeds (.ofRules rules) ('"' :: a ++ ['"']) = [Alternative.value a] :=
    seeds_exact hvalue
  refine ⟨hseeds, fun target => ⟨fun c hc => ?_, fun pattern matching hfault => ?_⟩⟩
  · have hseed := (searchChain_eq_ok hc).1
    rw [hseeds] at hseed
    exact (List.cons.inj hseed).1.symm
  · rw [searchChain_of_seeds hseeds] at hfault
    split at hfault
    · cases hfault
    · rename_i fault hclimb
      cases hfault
      exact Chain.climb_ne_seed hclimb

/-- Rules with quotes at the ends of alternatives, with stray brackets and with blanks. -/
def quotedRules : List Rule :=
  Grammar.rules "<s> ::= '<t>' | \"x\" | \"x y\" z\"\n<t> ::= < a <b  c> | x".toList

/-- Quotes in the text do not end it, and only the blanks of a non-terminal count. From the value
with the stray bracket there is a chain, and it starts there. -/
theorem searchChain_starts_at_quoted_of_quotedRules :
    (∃ r ∈ quotedRules, "\"x y\" z\"".toList ∈ r.alternatives) ∧
      seeds (.ofRules quotedRules) ('"' :: "\"x y\" z\"".toList ++ ['"']) =
        ["\"xy\"z\"".toList] ∧
      "<a<b  c>".toList ∈ (Index.ofRules quotedRules).values ∧
      seeds (.ofRules quotedRules) ('"' :: "<a<b  c>".toList ++ ['"']) =
        ["<a<b  c>".toList] ∧
      ∃ c, searchChain (.ofRules quotedRules) "<s>".toList
          ('"' :: "<a<b  c>".toList ++ ['"']) = .ok c ∧
        c.values = ["<a<b  c>".toList, "<t>".toList, "<s>".toList] ∧
        c.seed = "<a<b  c>".toList := by
  have halternative : ∃ r ∈ quotedRules, "\"x y\" z\"".toList ∈ r.alternatives := by
    decide +kernel
  have hvalue : "<a<b  c>".toList ∈ (Index.ofRules quotedRules).values := by decide +kernel
  have hsqueezed : Alternative.value "\"x y\" z\"".toList = "\"xy\"z\"".toList := by
    decide +kernel
  have hsame : Alternative.value "<a<b  c>".toList = "<a<b  c>".toList := by decide +kernel
  have hfound : searchChain (.ofRules quotedRules) "<s>".toList
      ('"' :: "<a<b  c>".toList ++ ['"']) =
      .ok ⟨"<a<b  c>".toList, "< a <b  c>".toList, ["<t>".toList, "<s>".toList]⟩ := by
    decide +kernel
  have hpicked := (searchChain_starts_at_quoted quotedRules _ (Or.inl halternative)).1
  obtain ⟨hpicked', hstarts⟩ := searchChain_starts_at_quoted quotedRules _ (Or.inr hvalue)
  rw [hsqueezed] at hpicked
  rw [hsame] at hpicked'
  refine ⟨halternative, hpicked, hvalue, hpicked', _, hfound, rfl, ?_⟩
  exact ((hstarts _).1 _ hfound).trans hsame

end GrammarTree
