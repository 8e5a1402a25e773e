import GrammarTree.Proofs.Derivation.Extension
import GrammarTree.Proofs.Grammar.Merged
import GrammarTree.Proofs.Grammar.Tokenization
import GrammarTree.Proofs.Session.Effect

/-!
# Nodes for the rules of a grammar

A rule is used by a node that has its symbol as its label. The left side of a rule only has to be a
name in brackets, while the tokens of an alternative are cut more narrowly, so that not every symbol
of a rule is one token. This file says which symbols are, and what becomes of an alternative that is
the symbol of a rule: either one node with this symbol, for which a selection offers the merged
rule, or several nodes.

A text that is its own only token is a non-terminal or a word. For the converse the tokens are laid
out in the text: if there is only one, and the text has no blanks at its ends, the token is all of
the text, and if there is none, the text is blank. So every other text has at least two.

What is here:

* `Alternative.IsToken`, and `Alternative.tokens_eq_singleton_iff`: these texts are their own only
  token;
* `Alternative.two_le_length_tokens`: all other texts without blanks at their ends have more tokens;
* `Session.beginSelection_of_label`: a node with the symbol of a rule can be selected;
* `Session.expand_symbol_of_rule`, for every rule and every node.
-/

set_option autoImplicit false

namespace GrammarTree

/-! ## Texts that are one token -/

namespace Alternative

variable {t a token name : Text}

/-- Whether a text is a token: a non-terminal or a word. -/
def IsToken (t : Text) : Prop := (∃ name, IsName name ∧ t = symbolOf name) ∨ IsWord t

theorem IsWord.isTrimmed (h : IsWord t) : t.IsTrimmed :=
  ⟨fun c hc => h.blank c (List.mem_of_head? hc), fun c hc => h.blank c (List.mem_of_getLast? hc)⟩

theorem IsToken.isTrimmed (h : IsToken t) : t.IsTrimmed := by
  obtain ⟨name, -, rfl⟩ | hword := h
  · exact isTrimmed_symbolOf name
  · exact hword.isTrimmed

theorem isToken_of_mem_tokens (h : t ∈ tokens a) : IsToken t :=
  (gathered (items a)).nonterminal_or_isWord (itemized_items a) t h

theorem tokens_nil : tokens [] = [] := by
  rw [tokens, items_nil]
  rfl

/-- The symbol of a name is a token if the name makes a non-terminal, or if it is a word. -/
theorem isToken_symbolOf_iff : IsToken (symbolOf name) ↔ IsName name ∨ IsWord (symbolOf name) := by
  refine or_congr_left ⟨?_, fun h => ⟨name, h, rfl⟩⟩
  rintro ⟨other, hother, heq⟩
  rwa [← bareName_symbolOf name, heq, bareName_symbolOf]

theorem IsToken.tokens_eq (h : IsToken t) : tokens t = [t] := by
  obtain ⟨name, hname, rfl⟩ | hword := h
  · have halone := tokens_append_nonterminal hname [] []
    rwa [tokens_nil, List.nil_append, List.append_nil] at halone
  · have halone : Text.words (t ++ []) = t :: Text.words [] :=
      words_append hword.ne_nil hword.blank fun _ hc => by cases hc
    rw [List.append_nil] at halone
    rw [tokens_eq_words hword.nonterminal, halone]
    rfl

theorem tokens_eq_singleton_iff : tokens t = [t] ↔ IsToken t :=
  ⟨fun h => isToken_of_mem_tokens (h ▸ List.mem_singleton_self t), IsToken.tokens_eq⟩

theorem laidOut_tokens (a : Text) : LaidOut (tokens a) a := by
  have hlaid := (gathered (items a)).laidOut
  rwa [flatMap_text_items] at hlaid

/-- An only token is the whole text, apart from blanks at the ends. -/
theorem trim_eq_of_tokens_eq_singleton (h : tokens a = [token]) : a.trim = token := by
  have htoken : IsToken token := isToken_of_mem_tokens (h ▸ List.mem_singleton_self token)
  have hlaid := laidOut_tokens a
  rw [h] at hlaid
  cases hlaid with
  | token hgap hrest =>
    cases hrest with
    | blanks hrest => exact htoken.isTrimmed.trim_pad hgap hrest

theorem isBlankOnly_of_tokens_eq_nil (h : tokens a = []) : a.isBlankOnly = true := by
  have hlaid := laidOut_tokens a
  rw [h] at hlaid
  cases hlaid with
  | blanks hgap => exact hgap

/-- Every other text has several tokens. -/
theorem two_le_length_tokens (hne : a ≠ []) (ha : a.IsTrimmed) (h : ¬ IsToken a) :
    2 ≤ (tokens a).length := by
  have htrim := Text.trim_eq_self_iff.2 ha
  match htokens : tokens a with
  | [] =>
    have hblank := Text.trim_eq_nil_iff.2 (isBlankOnly_of_tokens_eq_nil htokens)
    exact absurd (htrim.symm.trans hblank) hne
  | [token] =>
    obtain rfl : a = token := htrim.symm.trans (trim_eq_of_tokens_eq_singleton htokens)
    exact absurd (tokens_eq_singleton_iff.1 htokens) h
  | _ :: _ :: _ => exact Nat.le_add_left 2 _

end Alternative

/-! ## Nodes that can be selected

A selection looks for the merged rule of the label and compares whole symbols. It does not ask
whether the label could be cut out of a text, so a node with the symbol of any rule can be
selected. -/

namespace Session

variable {s : Session} {node : NodeId}

/-- A node with the symbol of some rule can be selected. -/
theorem beginSelection_of_label {label : Text} {merged : Rule}
    (hlabel : s.derivation.label? node = some label)
    (hmerged : Grammar.merged? s.rules label = some merged) :
    beginSelection (some node) s =
      .ok merged { s with selection := some ⟨merged, node⟩ } := by
  rw [beginSelection, nodeOrCurrent_some_bind, Edit.get_bind_apply, hlabel]
  dsimp only
  rw [Edit.bind_apply, lookUpRule_eq, hmerged]
  rfl

/-- **Every rule whose symbol is one token can be used.** Expanding the symbol under a node creates
one child with this label, and a selection for it offers the merged rule. The symbol of every other
rule creates several children. -/
theorem expand_symbol_of_rule (hs : s.derivation.IsForest) {rule : Rule} (hrule : rule ∈ s.rules)
    (hnode : s.derivation.contains node = true) :
    ∃ created g', Derivation.expand rule.symbol node s.derivation = .ok created g' ∧
      g'.children node = s.derivation.children node ++ created ∧
      (Alternative.IsName rule.name ∨ Alternative.IsWord rule.symbol →
        ∃ child merged, created = [child] ∧ g'.label? child = some rule.symbol ∧
          Grammar.merged? s.rules rule.symbol = some merged ∧
          beginSelection (some child) { s with derivation := g' } =
            .ok merged { s with derivation := g', selection := some ⟨merged, child⟩ }) ∧
      (¬ (Alternative.IsName rule.name ∨ Alternative.IsWord rule.symbol) →
        2 ≤ created.length) := by
  have hexpand := Derivation.expand_eq hs rule.symbol node
  rw [if_pos hnode] at hexpand
  have hlabels := hs.label?_withChildren hnode (Alternative.tokens rule.symbol)
  refine ⟨_, _, hexpand, Derivation.children_withChildren node _, fun htoken => ?_,
    fun hother => ?_⟩
  · have htokens : Alternative.tokens rule.symbol = [rule.symbol] :=
      (Alternative.isToken_symbolOf_iff.2 htoken).tokens_eq
    rw [htokens] at hlabels ⊢
    obtain ⟨merged, hmerged⟩ := Grammar.exists_merged? hrule
    have hlabel : (s.derivation.withChildren node [rule.symbol]).label? s.derivation.next =
        some rule.symbol := (List.cons.inj hlabels).1
    exact ⟨_, merged, rfl, hlabel, hmerged, beginSelection_of_label hlabel hmerged⟩
  · rw [Derivation.length_newIds]
    exact Alternative.two_le_length_tokens (List.cons_ne_nil _ _) rule.isTrimmed_symbol
      (mt Alternative.isToken_symbolOf_iff.1 hother)

/-- The symbols of the first two names are one token each, and that of the last one is not. The name
that is defined twice is merged. -/
theorem expand_symbol_of_rule_of_three_names :
    let s := afterAll [.newRoot 1] (start "<s> ::= x | y\n<<> ::= z\n< a> ::= w\n<s> ::= v".toList)
    (∃ child g' s' merged, Derivation.expand "<s>".toList 0 s.derivation = .ok [child] g' ∧
        beginSelection (some child) { s with derivation := g' } = .ok merged s' ∧
        merged.alternatives = ["x".toList, "y".toList, "v".toList]) ∧
      (∃ child g' s' merged, Derivation.expand "<<>".toList 0 s.derivation = .ok [child] g' ∧
        beginSelection (some child) { s with derivation := g' } = .ok merged s' ∧
        merged.alternatives = ["z".toList]) ∧
      ∃ created g', Derivation.expand "< a>".toList 0 s.derivation = .ok created g' ∧
        2 ≤ created.length := by
  intro s
  have hs : s.derivation.IsForest :=
    isForest_derivation_afterAll Derivation.isForest_empty [.newRoot 1]
  have hnode : s.derivation.contains 0 = true := by decide +kernel
  have hname : Alternative.IsName "s".toList :=
    ⟨⟨'s', rfl, by decide⟩, Text.forall_eq_false_of_all (by decide)⟩
  have hword : Alternative.IsWord "<<>".toList := by
    refine ⟨by decide, Text.forall_eq_false_of_all (by decide), fun name hname hoccurs => ?_⟩
    obtain ⟨c, hc, -⟩ := hname.start
    have hmem : c ∈ symbolOf name :=
      List.mem_cons_of_mem _ (List.mem_append_left _ (List.mem_of_head? hc))
    have hbrackets : ("<<>".toList).all Alternative.isBracket = true := by decide
    have hbracket := List.all_eq_true.1 hbrackets c (hoccurs.subset hmem)
    rw [hname.brackets c (List.mem_of_head? hc)] at hbracket
    cases hbracket
  have hnone : ¬ (Alternative.IsName " a".toList ∨ Alternative.IsWord "< a>".toList) := by
    rintro (⟨⟨c, hc, hblank⟩, -⟩ | hword)
    · cases hc
      exact absurd hblank (by decide)
    · exact absurd (hword.blank ' ' (by decide)) (by decide)
  have hfirst : (⟨some 1, "s".toList, "x".toList, ["y".toList], by decide, by decide⟩ : Rule) ∈
      s.rules := by decide +kernel
  have hsecond : (⟨some 2, "<".toList, "z".toList, [], by decide, by decide⟩ : Rule) ∈
      s.rules := by decide +kernel
  have hthird : (⟨some 3, " a".toList, "w".toList, [], by decide, by decide⟩ : Rule) ∈
      s.rules := by decide +kernel
  have hmerges : (Grammar.merged? s.rules "<s>".toList).map Rule.alternatives =
      some ["x".toList, "y".toList, "v".toList] := by decide +kernel
  have halone : (Grammar.merged? s.rules "<<>".toList).map Rule.alternatives =
      some ["z".toList] := by decide +kernel
  refine ⟨?_, ?_, ?_⟩
  · obtain ⟨_, g', hexpand, -, hone, -⟩ := expand_symbol_of_rule hs hfirst hnode
    obtain ⟨child, merged, rfl, -, hmerged, hselect⟩ := hone (Or.inl hname)
    have hmerged' : Grammar.merged? s.rules "<s>".toList = some merged := hmerged
    rw [hmerged', Option.map_some, Option.some_inj] at hmerges
    exact ⟨child, g', _, merged, hexpand, hselect, hmerges⟩
  · obtain ⟨_, g', hexpand, -, hone, -⟩ := expand_symbol_of_rule hs hsecond hnode
    obtain ⟨child, merged, rfl, -, hmerged, hselect⟩ := hone (Or.inr hword)
    have hmerged' : Grammar.merged? s.rules "<<>".toList = some merged := hmerged
    rw [hmerged', Option.map_some, Option.some_inj] at halone
    exact ⟨child, g', _, merged, hexpand, hselect, halone⟩
  · obtain ⟨created, g', hexpand, -, -, hseveral⟩ := expand_symbol_of_rule hs hthird hnode
    exact ⟨created, g', hexpand, hseveral hnone⟩

/-- Not every rule can be used by its symbol: the one of `< a>` creates the nodes `<` and `a>`. -/
theorem not_forall_expand_symbol_eq_singleton :
    ¬ ∀ (s : Session) (rule : Rule) (node : NodeId), s.Reachable → rule ∈ s.rules →
      s.derivation.contains node = true →
      ∃ child g' merged s', Derivation.expand rule.symbol node s.derivation = .ok [child] g' ∧
        g'.label? child = some rule.symbol ∧
        Grammar.merged? s.rules rule.symbol = some merged ∧
        beginSelection (some child) { s with derivation := g' } = .ok merged s' := by
  intro h
  have hreachable : (afterAll [.newRoot 1] (start "< a> ::= x".toList)).Reachable := ⟨_, _, rfl⟩
  obtain ⟨child, g', -, -, hexpand, -⟩ := h _
    ⟨some 1, " a".toList, "x".toList, [], by decide, by decide⟩ 0 hreachable (by decide +kernel)
    (by decide +kernel)
  have hnode : (afterAll [.newRoot 1] (start "< a> ::= x".toList)).derivation.contains 0 =
      true := by decide +kernel
  rw [Derivation.expand_eq hreachable.isForest_derivation, if_pos hnode] at hexpand
  have hlength := congrArg List.length (EStateM.Result.ok.inj hexpand).1
  have htokens : (Alternative.tokens (symbolOf " a".toList)).length = 2 := by decide +kernel
  rw [Derivation.length_newIds, List.length_singleton, Rule.symbol, htokens] at hlength
  cases hlength

end Session

end GrammarTree
