import GrammarTree.Proofs.Grammar.Tokens
import GrammarTree.Proofs.Text.Blank

/-!
# Where non-terminals stand

A non-terminal is recognised by its own text alone: whatever stands around it, it is cut out as one
item, and so an alternative can be read in parts that meet at its brackets.

The cutting goes from left to right and takes a non-terminal as soon as one starts. What stands in
front of a non-terminal cannot take a part of it along, because a non-terminal has no opening
bracket but its first character: one that starts further left must have ended before. This is the
lemma that everything else here comes from.

What is here:

* `Alternative.IsName`, the names that make a non-terminal between brackets, and
  `Alternative.nonterminal?_eq_some_iff`;
* `Alternative.nonterminal?_eq_none_iff_of_filter_eq`: of what follows, only the brackets count;
* `Alternative.items_append_nonterminal` and what follows for tokens and values: the text in front
  of a non-terminal and the text behind it are read on their own.
-/

set_option autoImplicit false

namespace GrammarTree

namespace Alternative

/-! ## Names -/

/-- A name that makes a non-terminal between brackets. -/
structure IsName (name : Text) : Prop where
  /-- It starts, and not with a blank. -/
  start : ∃ c ∈ name.head?, isBlank c = false
  /-- It holds no bracket. -/
  brackets : ∀ c ∈ name, isBracket c = false

theorem IsName.opening_notMem {name : Text} (h : IsName name) : '<' ∉ name := fun hmem =>
  absurd (h.brackets _ hmem) (by decide)

theorem IsName.closing_notMem {name : Text} (h : IsName name) : '>' ∉ name := fun hmem =>
  absurd (h.brackets _ hmem) (by decide)

/-- The non-terminal that is recognised is the one that the text starts with. -/
theorem nonterminal?_eq_some_iff {t name rest : Text} :
    nonterminal? t = some (name, rest) ↔ IsName name ∧ t = symbolOf name ++ rest := by
  constructor
  · intro h
    refine ⟨?_, eq_append_of_nonterminal? h⟩
    unfold nonterminal? at h
    split at h
    · rename_i c t
      split at h
      · cases h
      · rename_i hc
        rw [Bool.or_eq_true, not_or, Bool.not_eq_true, Bool.not_eq_true] at hc
        split at h
        · cases h
          refine ⟨⟨c, rfl, hc.2⟩, fun d hd => ?_⟩
          rcases List.mem_cons.1 hd with rfl | hd
          · exact hc.1
          · simpa using List.mem_takeWhile_imp hd
        · cases h
    · cases h
  · rintro ⟨⟨⟨c, hc, hblank⟩, hbrackets⟩, rfl⟩
    cases name with
    | nil => cases hc
    | cons d name =>
      cases hc
      have hrun : ∀ d ∈ name, (!isBracket d) = true := fun d hd => by
        rw [hbrackets d (List.mem_cons_of_mem _ hd), Bool.not_false]
      have hclosing : ∀ d ∈ List.head? ('>' :: rest), (!isBracket d) = false := fun d hd => by
        cases hd
        rfl
      have htake := Text.takeWhile_append hrun hclosing
      have hdrop := Text.dropWhile_append hrun hclosing
      have hbracket := hbrackets c (List.mem_cons_self ..)
      simp [nonterminal?, symbolOf, hblank, hbracket, htake, hdrop]

theorem isName_of_mem_items {a name : Text} (h : .nonterminal name ∈ items a) : IsName name := by
  fun_induction items a with
  | case1 => cases h
  | case2 c t other rest hother ih =>
    rcases List.mem_cons.1 h with heq | h
    · cases heq
      exact (nonterminal?_eq_some_iff.1 hother).1
    · exact ih h
  | case3 c t _ ih => exact ih ((List.mem_cons.1 h).resolve_left (by simp))

/-! ## What follows an opening bracket

Whether a non-terminal starts at an opening bracket is decided by the next character and by the next
bracket. So the text behind it may be changed, as by blanks that are put in or taken out, as long as
its brackets stay. -/

/-- A non-terminal starts where a character that may start its name follows the opening bracket and
the next bracket is a closing one. -/
theorem exists_nonterminal?_iff {c : Char} {t : Text} :
    (∃ name rest, nonterminal? ('<' :: c :: t) = some (name, rest)) ↔
      isBracket c = false ∧ isBlank c = false ∧ (t.filter isBracket).head? = some '>' := by
  simp only [nonterminal?_eq_some_iff]
  constructor
  · rintro ⟨name, rest, ⟨⟨d, hd, hblank⟩, hbrackets⟩, heq⟩
    cases name with
    | nil => cases hd
    | cons e name =>
      cases hd
      simp only [symbolOf, List.cons_append, List.cons.injEq, true_and] at heq
      obtain ⟨rfl, rfl⟩ := heq
      refine ⟨hbrackets c (List.mem_cons_self ..), hblank, ?_⟩
      have hnone : name.filter isBracket = [] := List.filter_eq_nil_iff.2 fun d hd => by
        rw [hbrackets d (List.mem_cons_of_mem _ hd)]
        exact Bool.false_ne_true
      rw [List.filter_append, List.filter_append, hnone]
      rfl
  · rintro ⟨hbracket, hblank, hnext⟩
    rw [List.head?_filter, List.find?_eq_some_iff_append] at hnext
    obtain ⟨-, name, rest, rfl, hname⟩ := hnext
    refine ⟨c :: name, rest, ⟨⟨c, rfl, hblank⟩, fun d hd => ?_⟩, by simp [symbolOf]⟩
    rcases List.mem_cons.1 hd with rfl | hd
    · exact hbracket
    · simpa using hname d hd

/-- No non-terminal starts in front of a blank or at the end of a text. -/
theorem nonterminal?_eq_none_of_blank {c : Char} {t : Text}
    (h : ∀ d ∈ t.head?, isBlank d = true) : nonterminal? (c :: t) = none := by
  by_contra hsome
  obtain ⟨⟨name, rest⟩, hname⟩ := Option.ne_none_iff_exists'.1 hsome
  obtain ⟨⟨⟨d, hd, hblank⟩, -⟩, heq⟩ := nonterminal?_eq_some_iff.1 hname
  cases name with
  | nil => cases hd
  | cons e name =>
    cases hd
    rw [symbolOf, List.cons_append, List.cons_append] at heq
    rw [(List.cons.inj heq).2] at h
    exact absurd (h d rfl) (by rw [hblank]; exact Bool.false_ne_true)

/-- Behind its first two characters, only the brackets of a text decide whether it starts with a
non-terminal. -/
theorem nonterminal?_eq_none_iff_of_filter_eq {c d : Char} {s t : Text}
    (h : s.filter isBracket = t.filter isBracket) :
    nonterminal? (c :: d :: s) = none ↔ nonterminal? (c :: d :: t) = none := by
  by_cases hc : c = '<'
  · subst hc
    rw [← not_iff_not, ← Ne, ← Ne, Option.ne_none_iff_exists', Option.ne_none_iff_exists']
    simp only [Prod.exists, exists_nonterminal?_iff, h]
  · rw [nonterminal?_of_ne hc, nonterminal?_of_ne hc]

/-! ## Reading in parts -/

theorem items_nil : items [] = [] := by
  rw [items]

/-- A non-terminal that starts in front of an opening bracket ends in front of it. -/
theorem exists_append_of_opening {c : Char} {name front rest t : Text} (h : IsName name)
    (heq : c :: front ++ '<' :: t = symbolOf name ++ rest) :
    ∃ middle, c :: front = symbolOf name ++ middle ∧ rest = middle ++ '<' :: t := by
  obtain ⟨middle, hfront, hrest⟩ | ⟨middle, hname, ht⟩ := List.append_eq_append_iff.1 heq.symm
  · exact ⟨middle, hfront, hrest⟩
  · cases middle with
    | nil => exact ⟨[], by simpa using hname.symm, by simpa using ht.symm⟩
    | cons d middle =>
      obtain ⟨rfl, -⟩ := List.cons.inj ht
      -- The second opening bracket would stand in the name.
      have hopening : '<' ∈ name ++ ['>'] := by
        rw [symbolOf, List.cons_append, List.cons_append] at hname
        rw [(List.cons.inj hname).2]
        simp
      exact absurd ((List.mem_append.1 hopening).resolve_right (by decide)) h.opening_notMem

/-- An opening bracket ends whatever stands in front of it. -/
theorem items_append_opening (front t : Text) :
    items (front ++ '<' :: t) = items front ++ items ('<' :: t) := by
  fun_induction items front with
  | case1 => rfl
  | case2 c front name rest hname ih =>
    obtain ⟨hvalid, heq⟩ := nonterminal?_eq_some_iff.1 hname
    have hwhole : nonterminal? (c :: (front ++ '<' :: t)) = some (name, rest ++ '<' :: t) :=
      nonterminal?_eq_some_iff.2 ⟨hvalid, by rw [← List.cons_append, heq, List.append_assoc]⟩
    rw [List.cons_append, items_cons_of_eq_some hwhole, ih, List.cons_append]
  | case3 c front hnone ih =>
    have hwhole : nonterminal? (c :: (front ++ '<' :: t)) = none := by
      by_contra hsome
      obtain ⟨⟨name, rest⟩, hname⟩ := Option.ne_none_iff_exists'.1 hsome
      obtain ⟨hvalid, heq⟩ := nonterminal?_eq_some_iff.1 hname
      obtain ⟨middle, hfront, -⟩ := exists_append_of_opening hvalid heq
      rw [nonterminal?_eq_some_iff.2 ⟨hvalid, hfront⟩] at hnone
      cases hnone
    rw [List.cons_append, items_cons_of_eq_none hwhole, ih, List.cons_append]

theorem items_symbolOf_append {name : Text} (h : IsName name) (t : Text) :
    items (symbolOf name ++ t) = .nonterminal name :: items t :=
  items_cons_of_eq_some (nonterminal?_eq_some_iff.2 ⟨h, rfl⟩)

/-- A non-terminal is one item wherever it stands. -/
theorem items_append_nonterminal {name : Text} (h : IsName name) (front back : Text) :
    items (front ++ symbolOf name ++ back) = items front ++ .nonterminal name :: items back := by
  rw [← items_symbolOf_append h, List.append_assoc]
  exact items_append_opening front _

theorem value_nil : value [] = [] := by
  rw [value_eq_flatMap, items_nil, List.flatMap_nil]

theorem value_cons_of_eq_none {c : Char} {t : Text} (h : nonterminal? (c :: t) = none) :
    value (c :: t) = (Item.char c).kept ++ value t := by
  rw [value_eq_flatMap, items_cons_of_eq_none h, List.flatMap_cons, ← value_eq_flatMap]

theorem value_symbolOf_append {name : Text} (h : IsName name) (t : Text) :
    value (symbolOf name ++ t) = symbolOf name ++ value t := by
  rw [value_eq_flatMap, items_symbolOf_append h, List.flatMap_cons, ← value_eq_flatMap, Item.kept]

theorem value_append_nonterminal {name : Text} (h : IsName name) (front back : Text) :
    value (front ++ symbolOf name ++ back) = value front ++ symbolOf name ++ value back := by
  rw [value_eq_flatMap, items_append_nonterminal h, List.flatMap_append, List.flatMap_cons,
    Item.kept, ← value_eq_flatMap, ← value_eq_flatMap, List.append_assoc]

end Alternative

end GrammarTree
