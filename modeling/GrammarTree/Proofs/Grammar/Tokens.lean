import GrammarTree.Grammar.Alternative
import Mathlib.Data.List.Infix
import Mathlib.Data.List.TakeWhile

/-!
# Values and tokens

The value of an alternative forgets where its tokens end. An alternative may therefore have the text
of a non-terminal as its value without having that non-terminal as a token. This file says when that
happens: only when the name of the non-terminal holds an angle bracket, or when the alternative has
a blank directly after its opening bracket.

A name without brackets leaves little room. If the alternative has any non-terminal among its items,
that one is inside the value and can only be the whole of it, so it is a token. If it has none, then
its characters, without the blanks, are the text of the non-terminal; only a blank in the place
where a name must not start with one can have kept it from being recognised.

What is here:

* `Alternative.value_eq_flatMap`, the value of an alternative by its items;
* `Alternative.symbolOf_mem_tokens`: every non-terminal that is cut out is a token;
* `Alternative.SpellsOut`, the alternatives that spell a non-terminal without having it as a token;
* `Alternative.mem_tokens_or_spellsOut`: there is no third way to have the value of a non-terminal.
-/

set_option autoImplicit false

namespace GrammarTree

namespace Alternative

/-! ## The value by items -/

/-- What is left of an item in the value of an alternative. -/
def Item.kept : Item → Text
  | .nonterminal name => symbolOf name
  | .char c => if isBlank c then [] else [c]

/-! The cases of `gather`: a blank is left out, a character in front of another one joins its token,
and any other character is a token of its own. -/

theorem gather_nonterminal (name : Text) (rest : List Item) :
    gather (.nonterminal name :: rest) = symbolOf name :: gather rest := rfl

theorem gather_char (c : Char) (rest : List Item) :
    gather (.char c :: rest) =
      if isBlank c then gather rest
      else match rest with
        | .char d :: _ =>
          if isBlank d then [c] :: gather rest else (gather rest).modifyHead (c :: ·)
        | _ => [c] :: gather rest := rfl

theorem gather_blank {c : Char} (hc : isBlank c = true) (rest : List Item) :
    gather (.char c :: rest) = gather rest := by
  rw [gather_char, if_pos hc]

theorem gather_join {c d : Char} (hc : ¬ isBlank c = true) (hd : ¬ isBlank d = true)
    (rest : List Item) :
    gather (.char c :: .char d :: rest) = (gather (.char d :: rest)).modifyHead (c :: ·) := by
  rw [gather_char, if_neg hc]
  exact if_neg hd

theorem gather_apart {c : Char} {rest : List Item} (hc : ¬ isBlank c = true)
    (hrest : ∀ d tail, rest = .char d :: tail → isBlank d = true) :
    gather (.char c :: rest) = [c] :: gather rest := by
  rw [gather_char, if_neg hc]
  split
  · rename_i d tail
    exact if_pos (hrest d tail rfl)
  · rfl

/-- A character that is no blank starts a token. -/
theorem exists_gather_eq_cons {c : Char} (hc : ¬ isBlank c = true) (rest : List Item) :
    ∃ token tokens, gather (.char c :: rest) = token :: tokens := by
  induction rest generalizing c with
  | nil => exact ⟨[c], [], gather_apart hc (by simp)⟩
  | cons item rest ih =>
    cases item with
    | nonterminal name => exact ⟨_, _, gather_apart hc (by simp)⟩
    | char d =>
      by_cases hd : isBlank d = true
      · exact ⟨_, _, gather_apart hc fun d' tail heq => by cases heq; exact hd⟩
      · obtain ⟨token, tokens, htokens⟩ := ih hd
        exact ⟨c :: token, tokens, by rw [gather_join hc hd, htokens, List.modifyHead_cons]⟩

theorem flatten_gather (parts : List Item) : (gather parts).flatten = parts.flatMap Item.kept := by
  induction parts using gather.induct with
  | case1 => rfl
  | case2 name rest ih =>
    rw [gather_nonterminal, List.flatten_cons, ih, List.flatMap_cons, Item.kept]
  | case3 c rest hc ih => rw [gather_blank hc, ih, List.flatMap_cons, Item.kept, if_pos hc]; rfl
  | case4 c hc d rest hd ih =>
    rw [gather_apart hc fun d' tail heq => by cases heq; exact hd, List.flatten_cons,
      List.flatMap_cons, ih, Item.kept, if_neg hc]
  | case5 c hc d rest hd ih =>
    obtain ⟨token, tokens, htokens⟩ := exists_gather_eq_cons hd rest
    rw [htokens, List.flatten_cons] at ih
    rw [gather_join hc hd, htokens, List.modifyHead_cons, List.flatten_cons, List.cons_append,
      List.flatMap_cons, ih, Item.kept, if_neg hc]
    rfl
  | case6 c rest hc hrest ih =>
    rw [gather_apart hc fun d tail heq => (hrest d tail heq).elim, List.flatten_cons, ih,
      List.flatMap_cons, Item.kept, if_neg hc]

theorem value_eq_flatMap (a : Text) : value a = (items a).flatMap Item.kept := flatten_gather _

theorem Item.kept_subset (item : Item) : item.kept ⊆ item.text := by
  cases item with
  | nonterminal name => exact fun _ h => h
  | char c =>
    rw [kept]
    split
    · exact List.nil_subset _
    · exact fun _ h => h

/-- The tokens of an alternative are made of its characters. -/
theorem subset_of_mem_tokens {a token : Text} (h : token ∈ tokens a) : token ⊆ a := by
  intro c hc
  have hvalue : c ∈ value a := List.mem_flatten.2 ⟨token, h, hc⟩
  rw [value_eq_flatMap] at hvalue
  obtain ⟨item, hitem, hkept⟩ := List.mem_flatMap.1 hvalue
  rw [← flatMap_text_items a]
  exact List.mem_flatMap.2 ⟨item, hitem, item.kept_subset hkept⟩

/-! ## Non-terminals are tokens -/

/-- A non-terminal among the items is a token, and not the one that a character in front of them
would join. -/
theorem symbolOf_mem_gather {parts : List Item} {name : Text} (h : .nonterminal name ∈ parts) :
    symbolOf name ∈ gather parts ∧
      ∀ c rest, parts = .char c :: rest → ¬ isBlank c = true →
        symbolOf name ∈ (gather parts).tail := by
  induction parts using gather.induct with
  | case1 => cases h
  | case2 other rest ih =>
    refine ⟨?_, fun c rest heq => by cases heq⟩
    rw [gather_nonterminal]
    rcases List.mem_cons.1 h with heq | h
    · cases heq
      exact List.mem_cons_self ..
    · exact List.mem_cons_of_mem _ (ih h).1
  | case3 c rest hc ih =>
    rw [gather_blank hc]
    refine ⟨(ih ((List.mem_cons.1 h).resolve_left (by simp))).1, fun d rest' heq hd => ?_⟩
    cases heq
    exact absurd hc hd
  | case4 c hc d rest hd ih =>
    have hmem := (ih ((List.mem_cons.1 h).resolve_left (by simp))).1
    rw [gather_apart hc fun d' tail heq => by cases heq; exact hd]
    exact ⟨List.mem_cons_of_mem _ hmem, fun _ _ _ _ => hmem⟩
  | case5 c hc d rest hd ih =>
    have htail := (ih ((List.mem_cons.1 h).resolve_left (by simp))).2 d rest rfl hd
    rw [gather_join hc hd, List.tail_modifyHead]
    refine ⟨List.mem_of_mem_tail ?_, fun _ _ _ _ => htail⟩
    rwa [List.tail_modifyHead]
  | case6 c rest hc hrest ih =>
    have hmem := (ih ((List.mem_cons.1 h).resolve_left (by simp))).1
    rw [gather_apart hc fun d tail heq => (hrest d tail heq).elim]
    exact ⟨List.mem_cons_of_mem _ hmem, fun _ _ _ _ => hmem⟩

theorem symbolOf_mem_tokens {a name : Text} (h : .nonterminal name ∈ items a) :
    symbolOf name ∈ tokens a :=
  (symbolOf_mem_gather h).1

/-! ## Values of non-terminals

The lemmas on single items come first. They say what the cutting does at a character that starts no
non-terminal, at one that does, and in a run of blanks. -/

/-- An alternative that spells a non-terminal without having it as a token: several tokens give the
text of the non-terminal. Its name holds an angle bracket, or a blank follows the opening one. -/
structure SpellsOut (a symbol : Text) : Prop where
  /-- The tokens give the text of the non-terminal. -/
  value_eq : value a = symbol
  /-- There are several tokens. -/
  several : 2 ≤ (tokens a).length
  /-- The brackets are not read as those of one non-terminal. -/
  brackets : (∃ c ∈ bareName symbol, isBracket c = true) ∨
    ∃ front c rest, a = front ++ '<' :: c :: rest ∧ front.isBlankOnly = true ∧ isBlank c = true

theorem nonterminal?_of_ne {c : Char} (hc : c ≠ '<') (t : Text) : nonterminal? (c :: t) = none := by
  unfold nonterminal?
  split
  · rename_i heq
    exact absurd (List.cons.inj heq).1 hc
  · rfl

theorem items_cons_of_eq_none {c : Char} {t : Text} (h : nonterminal? (c :: t) = none) :
    items (c :: t) = .char c :: items t := by
  rw [items]
  split
  · rename_i heq
    rw [h] at heq
    cases heq
  · rfl

theorem items_cons_of_eq_some {c : Char} {t name rest : Text}
    (h : nonterminal? (c :: t) = some (name, rest)) :
    items (c :: t) = .nonterminal name :: items rest := by
  rw [items]
  split
  · rename_i heq
    rw [h] at heq
    cases heq
    rfl
  · rename_i heq
    rw [h] at heq
    cases heq

theorem items_blank_append {front : Text} (hfront : front.isBlankOnly = true) (t : Text) :
    items (front ++ t) = front.map Item.char ++ items t := by
  induction front with
  | nil => rfl
  | cons c front ih =>
    simp only [Text.isBlankOnly, List.all_cons, Bool.and_eq_true] at hfront
    have hc : c ≠ '<' := by
      rintro rfl
      exact absurd hfront.1 (by decide)
    rw [List.cons_append, items_cons_of_eq_none (nonterminal?_of_ne hc _), ih hfront.2,
      List.map_cons, List.cons_append]

/-- Without non-terminals the items are the characters one by one. -/
theorem value_eq_squeeze {a : Text} (h : ∀ name, .nonterminal name ∉ items a) :
    value a = a.squeeze := by
  have hkept : (items a).flatMap Item.kept = Text.squeeze ((items a).flatMap Item.text) := by
    rw [Text.squeeze, List.filter_flatMap]
    refine List.flatMap_congr fun item hitem => ?_
    cases item with
    | nonterminal name => exact absurd hitem (h name)
    | char c => cases hc : isBlank c <;> simp [Item.kept, Item.text, hc]
  rw [value_eq_flatMap, hkept, flatMap_text_items]

/-- A non-terminal inside the text of another one whose name holds no bracket is that one. -/
theorem eq_of_symbolOf_isInfix {inner name : Text} (hname : ∀ c ∈ name, isBracket c = false)
    (h : symbolOf inner <:+: symbolOf name) : inner = name := by
  have hopening : '<' ∉ name := fun hmem => absurd (hname _ hmem) (by decide)
  have hclosing : '>' ∉ name := fun hmem => absurd (hname _ hmem) (by decide)
  obtain ⟨left, right, heq⟩ := h
  have hleft : left = [] := by
    cases left with
    | nil => rfl
    | cons c left =>
      -- A second opening bracket would stand in the name.
      have hmem : '<' ∈ name ++ ['>'] := by
        have htail := congrArg List.tail heq
        simp only [symbolOf, List.cons_append, List.tail_cons] at htail
        rw [← htail]
        simp
      rw [List.mem_append, List.mem_singleton] at hmem
      exact absurd hmem (by simp [hopening])
  subst hleft
  simp only [symbolOf, List.nil_append, List.cons_append, List.cons.injEq, true_and] at heq
  rcases List.eq_nil_or_concat right with rfl | ⟨rest, c, rfl⟩
  · rw [List.append_nil] at heq
    exact List.append_cancel_right heq
  · -- A second closing bracket would stand in the name.
    rw [List.concat_eq_append, ← List.append_assoc] at heq
    have hmem := (List.append_inj_left' heq rfl) ▸
      (show '>' ∈ inner ++ ['>'] ++ rest by simp)
    exact absurd hmem hclosing

/-- Between brackets that stand directly around it, a name without brackets is read as that of a
non-terminal, whatever blanks it holds. -/
theorem nonterminal?_isSome {c : Char} {rest : Text} (hblank : isBlank c = false)
    (hbracket : isBracket c = false) (hclosing : '>' ∈ rest) (hopening : '<' ∉ rest) :
    ∃ name after, nonterminal? ('<' :: c :: rest) = some (name, after) := by
  have hdrop : ∃ after, rest.dropWhile (fun d => !isBracket d) = '>' :: after := by
    cases hrest : rest.dropWhile fun d => !isBracket d with
    | nil =>
      have hall := List.dropWhile_eq_nil_iff.1 hrest '>' hclosing
      exact absurd hall (by decide)
    | cons d after =>
      have hd : d ∈ rest := (List.dropWhile_sublist _).subset (hrest ▸ List.mem_cons_self ..)
      have hnot := List.head?_dropWhile_not (fun d => !isBracket d) rest
      rw [hrest] at hnot
      simp only [List.head?_cons, Bool.not_eq_false', isBracket, Bool.or_eq_true,
        decide_eq_true_eq] at hnot
      rcases hnot with rfl | rfl
      · exact absurd hd hopening
      · exact ⟨after, rfl⟩
  obtain ⟨after, hafter⟩ := hdrop
  exact ⟨c :: rest.takeWhile (fun d => !isBracket d), after, by
    simp [nonterminal?, hblank, hbracket, hafter]⟩

/-- An alternative without non-terminals whose value is one has a blank behind its opening
bracket. -/
theorem exists_blank_of_value {a name : Text} (hitems : ∀ inner, .nonterminal inner ∉ items a)
    (hne : name ≠ []) (hname : ∀ c ∈ name, isBracket c = false) (h : value a = symbolOf name) :
    ∃ front c rest, a = front ++ '<' :: c :: rest ∧ front.isBlankOnly = true ∧
      isBlank c = true := by
  rw [value_eq_squeeze hitems, Text.squeeze] at h
  have hfront : Text.isBlankOnly (a.takeWhile isBlank) = true := List.all_takeWhile
  have hsplit : a.takeWhile isBlank ++ a.dropWhile isBlank = a := List.takeWhile_append_dropWhile
  have hnot := List.head?_dropWhile_not isBlank a
  have hsqueeze : (a.dropWhile isBlank).filter (fun c => !isBlank c) = symbolOf name := by
    rw [← hsplit, List.filter_append, List.filter_eq_nil_iff.2, List.nil_append] at h
    · exact h
    · intro c hc
      simpa using Text.isBlankOnly_iff.1 hfront c hc
  generalize a.takeWhile isBlank = front at hfront hsplit
  generalize a.dropWhile isBlank = text at hnot hsplit hsqueeze
  cases text with
  | nil => cases hsqueeze
  | cons opening text =>
    simp only [List.head?_cons] at hnot
    rw [List.filter_cons_of_pos (by simp [hnot]), symbolOf, List.cons_append] at hsqueeze
    obtain ⟨rfl, htail⟩ := List.cons.inj hsqueeze
    cases text with
    | nil => simp at htail
    | cons c rest =>
      refine ⟨front, c, rest, hsplit.symm, hfront, ?_⟩
      by_contra hblank
      rw [Bool.not_eq_true] at hblank
      -- Otherwise the brackets would be those of a non-terminal among the items.
      rw [List.filter_cons_of_pos (by simp [hblank])] at htail
      cases name with
      | nil => exact absurd rfl hne
      | cons d name =>
        rw [List.cons_append] at htail
        obtain ⟨rfl, hrest⟩ := List.cons.inj htail
        have hmem : ∀ b, isBlank b = false → (b ∈ rest ↔ b ∈ name ++ ['>']) := by
          intro b hb
          rw [← hrest, List.mem_filter]
          simp [hb]
        have hopening : '<' ∉ rest := by
          rw [hmem _ (by decide)]
          simp only [List.mem_append, List.mem_singleton, not_or]
          exact ⟨fun hb => absurd (hname _ (List.mem_cons_of_mem _ hb)) (by decide), by decide⟩
        obtain ⟨inner, after, hinner⟩ := nonterminal?_isSome hblank
          (hname c (List.mem_cons_self ..)) ((hmem _ (by decide)).2 (by simp)) hopening
        refine hitems inner ?_
        rw [← hsplit, items_blank_append hfront, items_cons_of_eq_some hinner]
        simp

/-- **A value that is a non-terminal comes from a token, or it is spelled out.** -/
theorem mem_tokens_or_spellsOut {a symbol : Text} (hsymbol : isPlaceholder symbol = true)
    (h : value a = symbol) : symbol ∈ tokens a ∨ SpellsOut a symbol := by
  obtain ⟨name, hne, rfl⟩ := isPlaceholder_iff.1 hsymbol
  by_cases hmem : symbolOf name ∈ tokens a
  · exact Or.inl hmem
  · have hseveral : 2 ≤ (tokens a).length := by
      rw [value] at h
      match htokens : tokens a with
      | [] =>
        rw [htokens] at h
        cases h
      | [token] =>
        rw [htokens, List.flatten_singleton] at h
        rw [htokens, h] at hmem
        exact absurd (List.mem_singleton_self _) hmem
      | _ :: _ :: _ => simp
    refine Or.inr ⟨h, hseveral, ?_⟩
    rw [bareName_symbolOf]
    by_cases hbracket : ∃ c ∈ name, isBracket c = true
    · exact Or.inl hbracket
    · have hname : ∀ c ∈ name, isBracket c = false := by simpa using hbracket
      refine Or.inr (exists_blank_of_value (fun inner hinner => ?_) hne hname h)
      -- A non-terminal among the items would be the whole value.
      have htoken := symbolOf_mem_tokens hinner
      have hwithin := List.infix_of_mem_flatten htoken
      rw [← value, h] at hwithin
      rw [eq_of_symbolOf_isInfix hname hwithin] at htoken
      exact hmem htoken

/-- Both ways to be spelled out occur: a bracket in the name, and a blank behind the first one. -/
example : value "<a<b>".toList = "<a<b>".toList ∧ "<a<b>".toList ∉ tokens "<a<b>".toList ∧
    value "< a>".toList = "<a>".toList ∧ "<a>".toList ∉ tokens "< a>".toList := by
  decide +kernel

end Alternative

end GrammarTree
