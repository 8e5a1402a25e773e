import GrammarTree.Grammar.Chain
import GrammarTree.Proofs.Grammar.Matching
import GrammarTree.Proofs.Grammar.Pieces
import GrammarTree.Proofs.Grammar.Tokenization
import GrammarTree.Proofs.Grammar.Values

/-!
# Patterns and the values they find

A quick selection compares a pattern with alternatives as they are written, and a path search
compares the key of the pattern with their values. Both lose their blanks on their own, and a
non-terminal keeps its blanks only where it is whole. So a quoted part of an alternative is found in
its value unless it cuts a non-terminal and takes some of its blanks along.

The value of a text is compared with the values of its parts. Where the cut goes through no
non-terminal, the value of the whole is the two values one after the other. Where it goes through
one, the front part ends with an opening bracket and some of a name, and the back part starts with
the rest of the name and a closing bracket. Neither is a non-terminal by itself, so both lose the
blanks that the whole keeps. If there are no blanks among them, nothing is lost.

What is here:

* `Alternative.InNonterminal` and `Alternative.IsFoundWhole`, which say that no blank of a part
  belongs to a non-terminal that is cut;
* `Alternative.IsCut`, with `Alternative.value_append_or_cut` and `Alternative.value_prefix_append`:
  what cutting a text does to its value;
* `Alternative.value_infix_of_isFoundWhole`: the value of such a part is a part of the value;
* `Pattern.ofText_searchKey`: a key has the quotes of its pattern;
* `searchKey_keeps_match`: what a pattern matches as written, its key matches as a value.
-/

set_option autoImplicit false

namespace GrammarTree

namespace Alternative

/-! ## Parts of alternatives

Whether a blank stands in a non-terminal is asked twice, in the part by itself and in the whole
alternative. A part is whole when every blank of it that stands in a non-terminal of the alternative
also stands in one of the part. -/

/-- Whether a character stands in a non-terminal of the text that it makes with what is in front of
it and what follows. -/
def InNonterminal (before : Text) (c : Char) (after : Text) : Prop :=
  ∃ front left right back name, IsName name ∧ symbolOf name = left ++ c :: right ∧
    before = front ++ left ∧ after = right ++ back

/-- Whether no blank of a text between two others belongs to a non-terminal that is cut: in the text
too, the blank stands in a non-terminal. -/
def IsWholeBetween (l t r : Text) : Prop :=
  ∀ u c v, t = u ++ c :: v → isBlank c = true →
    InNonterminal (l ++ u) c (v ++ r) → InNonterminal u c v

/-- Whether a text occurs in an alternative at a place where no blank of it belongs to a
non-terminal that is cut. -/
def IsFoundWhole (t a : Text) : Prop := ∃ l r, a = l ++ t ++ r ∧ IsWholeBetween l t r

variable {c : Char} {before after name s t l r x a : Text}

/-- The opening bracket of the non-terminal around a blank stands in front of it. -/
theorem InNonterminal.opening_mem (h : InNonterminal before c after) (hc : isBlank c = true) :
    '<' ∈ before := by
  obtain ⟨front, left, right, back, name, -, hcut, rfl, -⟩ := h
  cases left with
  | nil =>
    obtain rfl := (List.cons.inj hcut).1
    exact absurd hc (by decide)
  | cons d left =>
    rw [← (List.cons.inj hcut).1]
    simp

/-- The closing bracket of the non-terminal around a blank stands behind it. -/
theorem InNonterminal.closing_mem (h : InNonterminal before c after) (hc : isBlank c = true) :
    '>' ∈ after := by
  obtain ⟨front, left, right, back, name, -, hcut, -, rfl⟩ := h
  have hlast := congrArg List.getLast? hcut
  rw [symbolOf, List.getLast?_concat, List.getLast?_append_cons, List.getLast?_cons] at hlast
  cases hright : right.getLast? with
  | none =>
    rw [hright] at hlast
    obtain rfl := Option.some.inj hlast
    exact absurd hc (by decide)
  | some d =>
    rw [hright] at hlast
    rw [Option.some.inj hlast]
    exact List.mem_append_left _ (List.mem_of_getLast? hright)

/-! ## Cut non-terminals -/

/-- A non-terminal in two parts, none of them empty. -/
structure IsCut (name front back : Text) : Prop where
  /-- It is a non-terminal. -/
  isName : IsName name
  /-- The parts give it. -/
  append : symbolOf name = front ++ back
  /-- The front is not empty. -/
  front_ne_nil : front ≠ []
  /-- The back is not empty. -/
  back_ne_nil : back ≠ []

/-- The front part starts with the opening bracket. -/
theorem IsCut.exists_cons (h : IsCut name s t) : ∃ s', s = '<' :: s' := by
  cases s with
  | nil => exact absurd rfl h.front_ne_nil
  | cons d s =>
    have happend := h.append
    rw [symbolOf, List.cons_append, List.cons_append] at happend
    exact ⟨s, by rw [(List.cons.inj happend).1]⟩

theorem IsCut.opening_notMem (h : IsCut name s t) : '<' ∉ t := by
  intro hmem
  obtain ⟨s, rfl⟩ := h.exists_cons
  have happend := h.append
  rw [symbolOf, List.cons_append, List.cons_append] at happend
  have hin : '<' ∈ name ++ ['>'] := by
    rw [(List.cons.inj happend).2]
    exact List.mem_append_right _ hmem
  exact absurd ((List.mem_append.1 hin).resolve_right (by decide)) h.isName.opening_notMem

theorem IsCut.closing_notMem (h : IsCut name s t) : '>' ∉ s := by
  intro hmem
  rcases List.eq_nil_or_concat t with rfl | ⟨t, d, rfl⟩
  · exact h.back_ne_nil rfl
  · have happend := h.append
    rw [List.concat_eq_append, ← List.append_assoc, symbolOf] at happend
    have hin : '>' ∈ '<' :: name := by
      rw [List.append_inj_left' happend rfl]
      exact List.mem_append_left _ hmem
    rcases List.mem_cons.1 hin with heq | hin
    · exact absurd heq (by decide)
    · exact h.isName.closing_notMem hin

/-- A non-terminal that starts a text, but not the front of it, is cut at the end of the front. -/
theorem exists_isCut {rest : Text} (hnone : nonterminal? (c :: t) = none)
    (h : nonterminal? (c :: (t ++ r)) = some (name, rest)) :
    ∃ s, IsCut name (c :: t) s ∧ r = s ++ rest := by
  obtain ⟨hvalid, heq⟩ := nonterminal?_eq_some_iff.1 h
  have hlonger : ∀ m, c :: t ≠ symbolOf name ++ m := fun m hfront => by
    rw [nonterminal?_eq_some_iff.2 ⟨hvalid, hfront⟩] at hnone
    cases hnone
  rw [← List.cons_append] at heq
  obtain ⟨m, hfront, -⟩ | ⟨m, hsymbol, hr⟩ := List.append_eq_append_iff.1 heq.symm
  · exact absurd hfront (hlonger m)
  · refine ⟨m, ⟨hvalid, hsymbol, List.cons_ne_nil _ _, ?_⟩, hr⟩
    rintro rfl
    exact hlonger [] (by rw [hsymbol, List.append_nil, List.append_nil])

/-! ## What cutting does to values -/

/-- A text is read in two parts, unless a non-terminal is cut. -/
theorem value_append_or_cut (l x : Text) :
    value (l ++ x) = value l ++ value x ∨
      ∃ name front s s' back, IsCut name s s' ∧ l = front ++ s ∧ x = s' ++ back := by
  fun_induction items l with
  | case1 =>
    rw [value_nil]
    exact Or.inl rfl
  | case2 c l name rest hname ih =>
    obtain ⟨hvalid, heq⟩ := nonterminal?_eq_some_iff.1 hname
    rw [heq]
    refine ih.imp (fun hvalue => ?_) ?_
    · rw [List.append_assoc, value_symbolOf_append hvalid, value_symbolOf_append hvalid, hvalue,
        List.append_assoc]
    · rintro ⟨other, front, s, s', back, hcut, rfl, hx⟩
      exact ⟨other, symbolOf name ++ front, s, s', back, hcut, (List.append_assoc ..).symm, hx⟩
  | case3 c l hnone ih =>
    cases hwhole : nonterminal? (c :: (l ++ x)) with
    | none =>
      refine ih.imp (fun hvalue => ?_) ?_
      · rw [List.cons_append, value_cons_of_eq_none hwhole, value_cons_of_eq_none hnone, hvalue,
          List.append_assoc]
      · rintro ⟨other, front, s, s', back, hcut, rfl, hx⟩
        exact ⟨other, c :: front, s, s', back, hcut, rfl, hx⟩
    | some found =>
      obtain ⟨name, rest⟩ := found
      obtain ⟨s, hcut, hx⟩ := exists_isCut hnone hwhole
      exact Or.inr ⟨name, [], c :: l, s, rest, hcut, rfl, hx⟩

theorem value_append_cut {front back : Text} (h : IsCut name s t) :
    value (front ++ s ++ (t ++ back)) = value front ++ (s ++ (t ++ value back)) := by
  have hwhole : front ++ s ++ (t ++ back) = front ++ symbolOf name ++ back := by
    rw [h.append]
    simp only [List.append_assoc]
  rw [hwhole, value_append_nonterminal h.isName, h.append]
  simp only [List.append_assoc]

/-- In front of another text, a value goes on at its end, unless the cut leaves a part of a
non-terminal with a blank. -/
theorem value_prefix_append
    (h : ∀ name front s s' back, IsCut name s s' → t = front ++ s → r = s' ++ back →
      ∀ c ∈ s, isBlank c = false) :
    value t <+: value (t ++ r) := by
  obtain hvalue | ⟨name, front, s, s', back, hcut, rfl, rfl⟩ := value_append_or_cut t r
  · rw [hvalue]
    exact List.prefix_append _ _
  · have hblank := h name front s s' back hcut rfl rfl
    have hfront : value (front ++ s) = value front ++ s := by
      obtain ⟨s, rfl⟩ := hcut.exists_cons
      rw [value_eq_flatMap, items_append_opening, List.flatMap_append, ← value_eq_flatMap,
        ← value_eq_flatMap, value_eq_self hblank]
    rw [value_append_cut hcut, hfront]
    exact (List.prefix_append_right_inj _).2 (List.prefix_append _ _)

/-- Characters that are no blanks stay in front of a value, unless a non-terminal starts in them. -/
theorem value_append_of_opening_notMem (hopening : '<' ∉ s) (hblank : ∀ c ∈ s, isBlank c = false)
    (t : Text) : value (s ++ t) = s ++ value t := by
  obtain hvalue | ⟨name, front, s', _, _, hcut, rfl, -⟩ := value_append_or_cut s t
  · rw [hvalue, value_eq_self hblank]
  · obtain ⟨s', rfl⟩ := hcut.exists_cons
    exact absurd (List.mem_append_right _ (List.mem_cons_self ..)) hopening

/-! ## What is found whole

A part may be cut at both of its ends, and the two cuts are treated one after the other: first the
text in front of the part is taken away, then the text behind it. -/

/-- A non-terminal that is cut at the end of the text leaves no blank in it: its closing bracket is
missing there. -/
theorem IsWholeBetween.isBlank_of_cut_end (h : IsWholeBetween l t r) {front s' back : Text}
    (hcut : IsCut name s s') (ht : t = front ++ s) (hr : r = s' ++ back) :
    ∀ c ∈ s, isBlank c = false := by
  intro c hc
  by_contra hblank
  rw [Bool.not_eq_false] at hblank
  obtain ⟨x, y, rfl⟩ := List.append_of_mem hc
  have hin : InNonterminal (l ++ (front ++ x)) c (y ++ r) :=
    ⟨l ++ front, x, y ++ s', back, name, hcut.isName, by simp [hcut.append], by simp, by simp [hr]⟩
  have hclosing := (h _ c y (by simp [ht]) hblank hin).closing_mem hblank
  exact hcut.closing_notMem (List.mem_append_right _ (List.mem_cons_of_mem _ hclosing))

/-- A non-terminal that is cut at the start of the text leaves no blank in it: its opening bracket
is missing there. -/
theorem IsWholeBetween.isBlank_of_cut_start (h : IsWholeBetween l t r) {front s' back : Text}
    (hcut : IsCut name s s') (hl : l = front ++ s) (hback : t ++ r = s' ++ back) {u v w : Text}
    (ht : t = u ++ c :: v) (hs' : s' = u ++ c :: w) : isBlank c = false := by
  subst ht hs'
  by_contra hblank
  rw [Bool.not_eq_false] at hblank
  have hin : InNonterminal (l ++ u) c (v ++ r) :=
    ⟨front, s ++ u, w, back, name, hcut.isName, by simp [hcut.append], by simp [hl],
      by simpa using hback⟩
  have hopening := (h u c v rfl hblank hin).opening_mem hblank
  exact hcut.opening_notMem (List.mem_append_left _ hopening)

/-- **A part that takes no blanks of a cut non-terminal along is found in the value.** -/
theorem value_infix_of_isFoundWhole (h : IsFoundWhole t a) : value t <:+: value a := by
  obtain ⟨l, r, rfl, hwhole⟩ := h
  rw [List.append_assoc]
  obtain hvalue | ⟨name, front, s, s', back, hcut, hl, hback⟩ := value_append_or_cut l (t ++ r)
  · have hprefix : value t <+: value (t ++ r) := value_prefix_append
      fun _ _ _ _ _ hcut ht hr => hwhole.isBlank_of_cut_end hcut ht hr
    rw [hvalue]
    exact List.infix_append_of_infix_right hprefix.isInfix
  · rw [hback, hl, value_append_cut hcut]
    refine List.infix_append_of_infix_right (List.infix_append_of_infix_right ?_)
    obtain ⟨m, hs', -⟩ | ⟨m, ht, rfl⟩ := List.append_eq_append_iff.1 hback
    · -- The text lies in the non-terminal.
      have hblank : ∀ c ∈ t, isBlank c = false := fun c hc => by
        obtain ⟨u, v, ht⟩ := List.append_of_mem hc
        exact hwhole.isBlank_of_cut_start hcut hl hback ht (w := v ++ m) (by simp [hs', ht])
      rw [value_eq_self hblank, hs', List.append_assoc]
      exact List.infix_append_left
    · -- The text goes on behind the non-terminal.
      have hblank : ∀ c ∈ s', isBlank c = false := fun c hc => by
        obtain ⟨u, w, hs'⟩ := List.append_of_mem hc
        exact hwhole.isBlank_of_cut_start hcut hl hback (v := w ++ m) (by simp [hs', ht]) hs'
      have hprefix : value m <+: value (m ++ r) := value_prefix_append
        fun _ front cut _ _ hcut hm hr =>
          have hrest : t = s' ++ front ++ cut := by rw [ht, hm, List.append_assoc]
          hwhole.isBlank_of_cut_end hcut hrest hr
      rw [ht, value_append_of_opening_notMem hcut.opening_notMem hblank]
      exact ((List.prefix_append_right_inj _).2 hprefix).isInfix

/-- A value has all characters that are no blanks. -/
theorem squeeze_value (a : Text) : (value a).squeeze = a.squeeze := by
  conv_rhs => rw [← flatMap_text_items a]
  rw [value_eq_flatMap, Text.squeeze, Text.squeeze, List.filter_flatMap, List.filter_flatMap]
  refine List.flatMap_congr fun item _ => ?_
  cases item with
  | nonterminal name => rfl
  | char c => cases hc : isBlank c <;> simp [Item.kept, Item.text, hc]

end Alternative

/-! ## Keys -/

namespace Text

variable {quote c : Char} {t : Text}

/-- Blanks between the ends of a text do not quote it. -/
theorem unquote?_squeeze (ht : t.IsTrimmed) (h : t.unquote? quote = none) :
    t.squeeze.unquote? quote = none := by
  cases t with
  | nil => rfl
  | cons c t =>
    have hsqueeze : squeeze (c :: t) = c :: squeeze t :=
      List.filter_cons_of_pos (by rw [ht.head c rfl]; rfl)
    rw [hsqueeze, unquote?_cons_eq_none_iff]
    rintro ⟨hc, hlast⟩
    refine unquote?_cons_eq_none_iff.1 h ⟨hc, ?_⟩
    rcases List.eq_nil_or_concat t with rfl | ⟨t, d, rfl⟩
    · cases hlast
    · rw [List.concat_eq_append] at ht hlast ⊢
      have hd : isBlank d = false := by
        refine ht.last d ?_
        rw [← List.cons_append, List.getLast?_concat]
        rfl
      have hkept : squeeze (t ++ [d]) = squeeze t ++ [d] := by
        rw [squeeze, List.filter_append, List.filter_cons_of_pos (by rw [hd]; rfl), squeeze]
        rfl
      rw [hkept, List.getLast?_concat] at hlast
      rwa [List.getLast?_concat]

end Text

/-- A key has the quotes of its pattern. -/
theorem Pattern.ofText_searchKey {p : Text} (hp : p.IsTrimmed) :
    ofText (searchKey p) = (ofText p).squeeze := by
  cases hpart : p.unquote? '\'' with
  | some t =>
    have hp : ofText p = .part t := by rw [ofText, hpart]
    rw [searchKey, hp, squeeze, ofText_toText_part]
  | none =>
    cases hexact : p.unquote? '"' with
    | some t =>
      have hp : ofText p = .exact t := by rw [ofText, hpart, hexact]
      rw [searchKey, hp, squeeze, ofText_toText_exact]
    | none =>
      have hscattered : ofText p = .scattered p := by rw [ofText, hpart, hexact]
      rw [searchKey, hscattered, squeeze, toText, ofText, Text.unquote?_squeeze hp hpart,
        Text.unquote?_squeeze hp hexact]

/-- **A key finds the value of what its pattern matches.** For a quoted part this needs a place
where the part does not take blanks of a cut non-terminal along; an exact text and scattered
characters are always found. So a search in rules that have the alternative comes upon its
value. -/
theorem searchKey_keeps_match {p a : Text} (hp : p.IsTrimmed) (h : matchesPattern p a = true)
    (hpart : ∀ t, Pattern.ofText p = .part t → Alternative.IsFoundWhole t a) :
    matchesPattern (searchKey p) (Alternative.value a) = true ∧
      ∀ rules : List Rule, ∀ r ∈ rules, a ∈ r.alternatives →
        Alternative.value a ∈ seeds (.ofRules rules) p := by
  have hkey : matchesPattern (searchKey p) (Alternative.value a) = true := by
    rw [matchesPattern, Pattern.ofText_searchKey hp]
    rw [matchesPattern] at h
    cases hp : Pattern.ofText p with
    | part t =>
      exact Pattern.accepts_part_iff.2 (Alternative.value_infix_of_isFoundWhole (hpart t hp))
    | exact t =>
      rw [hp, Pattern.accepts_exact_iff] at h
      exact Pattern.accepts_exact_iff.2 (congrArg Alternative.value h)
    | scattered t =>
      rw [hp, Pattern.accepts_scattered_iff] at h
      refine Pattern.accepts_scattered_iff.2 ((h.filter _).trans ?_)
      rw [← Text.squeeze, ← Alternative.squeeze_value]
      exact List.filter_sublist
  refine ⟨hkey, fun rules r hr ha => List.mem_filter.2 ⟨?_, hkey⟩⟩
  exact Index.mem_values_ofRules.2 ⟨(r.symbol, a), Index.mem_owned.2 ⟨r, hr, rfl, ha⟩, rfl⟩

/-- A quoted part is found with the blank of its non-terminal and without the one in front of it. -/
theorem searchKey_keeps_match_of_whole_nonterminal :
    matchesPattern (searchKey "' <a b>'".toList) "f<a b>y".toList = true ∧
      "f<a b>y".toList ∈
        seeds (.ofRules (Grammar.rules "<s> ::= f <a b>y".toList)) "' <a b>'".toList := by
  have hvalue : Alternative.value "f <a b>y".toList = "f<a b>y".toList := by decide +kernel
  have hname : Alternative.IsName "a b".toList :=
    (Alternative.nonterminal?_eq_some_iff.1 (by decide +kernel :
      Alternative.nonterminal? "<a b>".toList = some ("a b".toList, []))).1
  have hwhole : Alternative.IsWholeBetween ['f'] " <a b>".toList ['y'] := by
    intro u c v ht
    match u, ht with
    | [], ht =>
      cases ht
      exact fun hc hin => absurd (hin.opening_mem hc) (by decide)
    | [_], ht => cases ht; exact fun hc => absurd hc (by decide)
    | [_, _], ht => cases ht; exact fun hc => absurd hc (by decide)
    | [_, _, _], ht =>
      cases ht
      exact fun _ _ => ⟨[' '], "<a".toList, "b>".toList, [], "a b".toList, hname, rfl, rfl, rfl⟩
    | [_, _, _, _], ht => cases ht; exact fun hc => absurd hc (by decide)
    | [_, _, _, _, _], ht => cases ht; exact fun hc => absurd hc (by decide)
    | _ :: _ :: _ :: _ :: _ :: _ :: _, ht => simp at ht
  have htrimmed : Text.IsTrimmed "' <a b>'".toList := Text.trim_eq_self_iff.1 (by decide +kernel)
  have hfound := searchKey_keeps_match (a := "f <a b>y".toList) htrimmed (by decide +kernel)
    fun t ht => by
      cases ht
      exact ⟨['f'], ['y'], rfl, hwhole⟩
  rw [hvalue] at hfound
  refine ⟨hfound.1, ?_⟩
  obtain ⟨r, hr, ha⟩ : ∃ r ∈ Grammar.rules "<s> ::= f <a b>y".toList,
      "f <a b>y".toList ∈ r.alternatives := by decide +kernel
  exact hfound.2 _ r hr ha

/-- The blank of a cut non-terminal is missing in the key and not in the value. -/
theorem not_forall_matchesPattern_searchKey :
    ¬ ∀ p a : Text, p.IsTrimmed → matchesPattern p a = true →
      matchesPattern (searchKey p) (Alternative.value a) = true := by
  intro h
  have htrimmed : Text.IsTrimmed "'g l'".toList := Text.trim_eq_self_iff.1 (by decide +kernel)
  have hfound := h "'g l'".toList "f(<arg list>)".toList htrimmed (by decide +kernel)
  exact absurd hfound (by decide +kernel)

end GrammarTree
