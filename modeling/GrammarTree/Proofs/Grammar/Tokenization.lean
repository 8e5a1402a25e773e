import GrammarTree.Proofs.Grammar.Nonterminals

/-!
# What the tokens of an alternative are

The tokens of an alternative are its non-terminals and, between them, its words. This file proves
that the reading into tokens is faithful to the text: the tokens cover it up to blanks, no
non-terminal is lost or made up, and the text that shows the tokens with a blank between any two of
them has the same tokens again.

The tokens are gathered character by character, which is the wrong grain for these statements: in
the middle of a word nothing is known of it yet. So the items are first described run by run, in an
inductive relation with one case for a non-terminal, one for a blank and one for a whole word. All
further inductions are on this relation.

A second matter is that items are read again from their own text. A sequence of items such as `<`,
`a` and `>` as single characters does not come from any text, and about it little is true. Those
that do come from a text are called itemized, and the end of an itemized sequence is itemized too.

What is here:

* `Alternative.Gathered`, the items of an alternative run by run, with `Alternative.gathered`: the
  induction behind all that follows;
* `Alternative.tokens_append_nonterminal`: a non-terminal is one token wherever it stands;
* `Alternative.tokens_eq_words`: without non-terminals the tokens are the words;
* `Alternative.Gathered.gather_items_spaced`: blanks between the tokens do not change them;
* `Alternative.value_value`: a value is its own value;
* `Alternative.tokens_faithful`, all of it.
-/

set_option autoImplicit false

namespace GrammarTree

/-- The runs of characters between blanks. -/
def Text.words (t : Text) : List Text := (t.splitOnP isBlank).filter fun word => !word.isEmpty

namespace Alternative

/-! ## Runs of items -/

/-- Whether a token that ends in front of some items is not longer for them. -/
def IsBreak (parts : List Item) : Prop := ∀ c rest, parts = .char c :: rest → isBlank c = true

/-- Characters up to the next blank or non-terminal are one token. -/
theorem gather_word {word : Text} (hne : word ≠ []) (hword : ∀ c ∈ word, isBlank c = false)
    {rest : List Item} (hrest : IsBreak rest) :
    gather (word.map .char ++ rest) = word :: gather rest := by
  induction word with
  | nil => exact absurd rfl hne
  | cons c word ih =>
    have hc : ¬ isBlank c = true := by
      rw [hword c (List.mem_cons_self ..)]
      exact Bool.false_ne_true
    cases word with
    | nil => exact gather_apart hc hrest
    | cons d word =>
      have hd : ¬ isBlank d = true := by
        rw [hword d (by simp)]
        exact Bool.false_ne_true
      have htail := ih (List.cons_ne_nil _ _) fun c hc => hword c (List.mem_cons_of_mem _ hc)
      rw [List.map_cons, List.cons_append] at htail ⊢
      rw [List.map_cons, List.cons_append, gather_join hc hd, htail, List.modifyHead_cons]

/-- Items with their tokens, run by run: a non-terminal, a blank between tokens, or a word up to the
next break. -/
inductive Gathered : List Text → List Item → Prop where
  /-- No items have no tokens. -/
  | nil : Gathered [] []
  /-- A non-terminal is a token. -/
  | nonterminal (name : Text) {tokens : List Text} {parts : List Item}
      (h : Gathered tokens parts) : Gathered (symbolOf name :: tokens) (.nonterminal name :: parts)
  /-- A blank is none. -/
  | blank {c : Char} (hc : isBlank c = true) {tokens : List Text} {parts : List Item}
      (h : Gathered tokens parts) : Gathered tokens (.char c :: parts)
  /-- A word is a token. -/
  | word {word : Text} (hne : word ≠ []) (hword : ∀ c ∈ word, isBlank c = false)
      {tokens : List Text} {parts : List Item} (hbreak : IsBreak parts)
      (h : Gathered tokens parts) : Gathered (word :: tokens) (word.map .char ++ parts)

/-- A character in front of a break is a word. -/
theorem Gathered.single {c : Char} (hc : ¬ isBlank c = true) {tokens : List Text}
    {parts : List Item} (hbreak : IsBreak parts) (h : Gathered tokens parts) :
    Gathered ([c] :: tokens) (.char c :: parts) := by
  show Gathered ([c] :: tokens) ([c].map .char ++ parts)
  refine .word (List.cons_ne_nil _ _) (fun d hd => ?_) hbreak h
  rw [List.mem_singleton.1 hd]
  exact Bool.eq_false_iff.2 hc

/-- All items can be read run by run. -/
theorem gathered (parts : List Item) : Gathered (gather parts) parts := by
  induction parts using gather.induct with
  | case1 => exact .nil
  | case2 name rest ih => exact .nonterminal name ih
  | case3 c rest hc ih =>
    rw [gather_blank hc]
    exact .blank hc ih
  | case4 c hc d rest hd ih =>
    have hbreak : IsBreak (.char d :: rest) := fun d' tail heq => by
      cases heq
      exact hd
    rw [gather_apart hc hbreak]
    exact .single hc hbreak ih
  | case5 c hc d rest hd ih =>
    -- The word of the next character is longer by this one.
    rw [gather_join hc hd]
    generalize gather (.char d :: rest) = tokens at ih
    generalize hparts : Item.char d :: rest = parts at ih
    cases ih with
    | nil => cases hparts
    | nonterminal name h => cases hparts
    | blank hd' h =>
      cases hparts
      exact absurd hd' hd
    | @word word hne hword tokens parts hbreak h =>
      rw [List.modifyHead_cons, ← List.cons_append, ← List.map_cons]
      refine .word (List.cons_ne_nil _ _) (fun e he => ?_) hbreak h
      rcases List.mem_cons.1 he with rfl | he
      · exact Bool.eq_false_iff.2 hc
      · exact hword e he
  | case6 c rest hc hrest ih =>
    have hbreak : IsBreak rest := fun d tail heq => (hrest d tail heq).elim
    rw [gather_apart hc hbreak]
    exact .single hc hbreak ih

variable {tokens : List Text} {parts : List Item}

theorem flatMap_text_map_char (t : Text) : (t.map Item.char).flatMap Item.text = t := by
  rw [List.flatMap_map]
  exact List.flatMap_singleton' t

/-! ## Non-terminals are tokens of their own -/

theorem Gathered.gather_append_nonterminal (h : Gathered tokens parts) (name : Text)
    (rest : List Item) :
    gather (parts ++ .nonterminal name :: rest) = tokens ++ symbolOf name :: gather rest := by
  induction h with
  | nil => rfl
  | nonterminal other h ih => rw [List.cons_append, gather_nonterminal, ih, List.cons_append]
  | blank hc h ih => rw [List.cons_append, gather_blank hc, ih]
  | @word word hne hword tokens parts hbreak h ih =>
    have hbreak' : IsBreak (parts ++ .nonterminal name :: rest) := by
      cases parts with
      | nil => exact fun _ _ heq => by cases heq
      | cons part parts =>
        intro c tail heq
        cases heq
        exact hbreak c parts rfl
    rw [List.append_assoc, gather_word hne hword hbreak', ih, List.cons_append]

/-- A non-terminal is one token wherever it stands, and the text in front of it and the text behind
it have their own tokens. -/
theorem tokens_append_nonterminal {name : Text} (h : IsName name) (front back : Text) :
    Alternative.tokens (front ++ symbolOf name ++ back) =
      Alternative.tokens front ++ symbolOf name :: Alternative.tokens back := by
  rw [Alternative.tokens, items_append_nonterminal h,
    (gathered (items front)).gather_append_nonterminal, ← Alternative.tokens, ← Alternative.tokens]

/-! ## Items of their own text -/

/-- Whether some items are the items of their own text. -/
def Itemized (parts : List Item) : Prop := items (parts.flatMap Item.text) = parts

theorem itemized_items (a : Text) : Itemized (items a) := by
  rw [Itemized, flatMap_text_items]

theorem Itemized.isName {name : Text} (h : Itemized (.nonterminal name :: parts)) : IsName name :=
  isName_of_mem_items (h ▸ List.mem_cons_self ..)

/-- No non-terminal starts at a character that is an item. -/
theorem Itemized.nonterminal?_eq_none {c : Char} (h : Itemized (.char c :: parts)) :
    nonterminal? (c :: parts.flatMap Item.text) = none := by
  by_contra hsome
  obtain ⟨⟨name, rest⟩, hname⟩ := Option.ne_none_iff_exists'.1 hsome
  have hitems := (items_cons_of_eq_some hname).symm.trans h
  cases hitems

theorem Itemized.tail {part : Item} (h : Itemized (part :: parts)) : Itemized parts := by
  cases part with
  | nonterminal name => exact (List.cons.inj ((items_symbolOf_append h.isName _).symm.trans h)).2
  | char c =>
    exact (List.cons.inj ((items_cons_of_eq_none h.nonterminal?_eq_none).symm.trans h)).2

theorem Itemized.of_append {front : List Item} (h : Itemized (front ++ parts)) :
    Itemized parts := by
  induction front with
  | nil => exact h
  | cons part front ih => exact ih h.tail

/-! ## Two kinds of tokens -/

/-- A token that is no non-terminal: it is not empty and holds neither a blank nor a
non-terminal. -/
structure IsWord (token : Text) : Prop where
  /-- It is not empty. -/
  ne_nil : token ≠ []
  /-- It holds no blank. -/
  blank : ∀ c ∈ token, isBlank c = false
  /-- It holds no non-terminal. -/
  nonterminal : ∀ name, IsName name → ¬ symbolOf name <:+: token

/-- Characters that are items hold no non-terminal. -/
theorem Itemized.not_infix {word : Text} (h : Itemized (word.map .char ++ parts)) {name : Text}
    (hname : IsName name) : ¬ symbolOf name <:+: word := by
  rintro ⟨front, back, rfl⟩
  rw [List.append_assoc, List.map_append, List.append_assoc] at h
  have hcut : Itemized (.char '<' :: ((name ++ ['>'] ++ back).map .char ++ parts)) := by
    simpa [symbolOf] using h.of_append
  have hnone := hcut.nonterminal?_eq_none
  have hsome : nonterminal? ('<' :: ((name ++ ['>'] ++ back).map Item.char ++ parts).flatMap
      Item.text) = some (name, back ++ parts.flatMap Item.text) := by
    refine nonterminal?_eq_some_iff.2 ⟨hname, ?_⟩
    rw [List.flatMap_append, flatMap_text_map_char, symbolOf]
    simp
  rw [hnone] at hsome
  cases hsome

theorem Gathered.nonterminal_or_isWord (h : Gathered tokens parts) (hparts : Itemized parts) :
    ∀ token ∈ tokens, (∃ name, IsName name ∧ token = symbolOf name) ∨ IsWord token := by
  induction h with
  | nil => exact fun _ hmem => absurd hmem List.not_mem_nil
  | nonterminal name h ih =>
    intro token hmem
    rcases List.mem_cons.1 hmem with rfl | hmem
    · exact Or.inl ⟨name, hparts.isName, rfl⟩
    · exact ih hparts.tail token hmem
  | blank hc h ih => exact ih hparts.tail
  | word hne hword hbreak h ih =>
    intro token hmem
    rcases List.mem_cons.1 hmem with rfl | hmem
    · exact Or.inr ⟨hne, hword, fun name hname => hparts.not_infix hname⟩
    · exact ih hparts.of_append token hmem

/-! ## Words -/

theorem words_blank_cons {c : Char} (hc : isBlank c = true) (t : Text) :
    Text.words (c :: t) = t.words := by
  have hsplit := List.splitOnP_append_cons [] t hc
  rw [List.nil_append] at hsplit
  rw [Text.words, hsplit, List.splitOnP_nil]
  rfl

theorem words_append {word : Text} (hne : word ≠ []) (hword : ∀ c ∈ word, isBlank c = false)
    {t : Text} (ht : ∀ c ∈ t.head?, isBlank c = true) :
    Text.words (word ++ t) = word :: t.words := by
  have hsingle : word.splitOnP isBlank = [word] := List.splitOnP_eq_singleton hword
  have hkept : (!word.isEmpty) = true := by simpa using hne
  cases t with
  | nil =>
    rw [List.append_nil, Text.words, hsingle]
    exact List.filter_cons_of_pos hkept
  | cons c t =>
    have hc := ht c rfl
    rw [words_blank_cons hc, Text.words, List.splitOnP_append_cons word t hc, hsingle]
    exact List.filter_cons_of_pos hkept

theorem IsBreak.isBlank_head (h : IsBreak parts) (hparts : ∀ name, .nonterminal name ∉ parts) :
    ∀ c ∈ (parts.flatMap Item.text).head?, isBlank c = true := by
  intro c hc
  cases parts with
  | nil => cases hc
  | cons part parts =>
    cases part with
    | nonterminal name => exact absurd (List.mem_cons_self ..) (hparts name)
    | char d =>
      cases hc
      exact h c parts rfl

theorem Gathered.eq_words (h : Gathered tokens parts) (hparts : ∀ name, .nonterminal name ∉ parts) :
    tokens = Text.words (parts.flatMap Item.text) := by
  induction h with
  | nil => rfl
  | nonterminal name h ih => exact absurd (List.mem_cons_self ..) (hparts name)
  | blank hc h ih =>
    rw [List.flatMap_cons, Item.text, List.singleton_append, words_blank_cons hc]
    exact ih fun name hmem => hparts name (List.mem_cons_of_mem _ hmem)
  | @word word hne hword tokens parts hbreak h ih =>
    have hrest : ∀ name, .nonterminal name ∉ parts := fun name hmem =>
      hparts name (List.mem_append_right _ hmem)
    rw [List.flatMap_append, flatMap_text_map_char,
      words_append hne hword (hbreak.isBlank_head hrest), ← ih hrest]

/-- Without non-terminals the tokens are the words. -/
theorem tokens_eq_words {a : Text} (h : ∀ name, IsName name → ¬ symbolOf name <:+: a) :
    Alternative.tokens a = a.words := by
  have hparts : ∀ name, .nonterminal name ∉ items a := by
    intro name hmem
    refine h name (isName_of_mem_items hmem) ?_
    rw [← flatMap_text_items a, List.flatMap_def]
    exact List.infix_of_mem_flatten (List.mem_map_of_mem hmem)
  rw [Alternative.tokens, (gathered (items a)).eq_words hparts, flatMap_text_items]

/-! ## Blanks between tokens

A blank that is put between two tokens could break up a non-terminal, and one that is taken out
could make one. Neither happens, since what starts at an opening bracket depends only on the
brackets behind it and on the next character, and the brackets of a text are all in its tokens. -/

/-- Tokens with one blank between any two of them. -/
def spaced (tokens : List Text) : Text := List.intercalate [' '] tokens

/-- What follows a token when some other tokens are written behind it. -/
def behind : List Text → Text
  | [] => []
  | tokens => ' ' :: spaced tokens

theorem spaced_cons (token : Text) (tokens : List Text) :
    spaced (token :: tokens) = token ++ behind tokens := by
  cases tokens with
  | nil => rw [spaced, List.intercalate_singleton, behind, List.append_nil]
  | cons next tokens =>
    rw [spaced, List.intercalate_cons_cons, behind, spaced, List.append_assoc]
    · rfl
    · exact fun heq => by cases heq

theorem isBlank_head?_behind (tokens : List Text) :
    ∀ c ∈ (behind tokens).head?, isBlank c = true := by
  intro c hc
  cases tokens with
  | nil => cases hc
  | cons token tokens =>
    cases hc
    rfl

theorem gather_items_behind (tokens : List Text) :
    gather (items (behind tokens)) = gather (items (spaced tokens)) := by
  cases tokens with
  | nil => rfl
  | cons token tokens =>
    have hnone : nonterminal? (' ' :: spaced (token :: tokens)) = none :=
      nonterminal?_of_ne (by decide) _
    rw [behind, items_cons_of_eq_none hnone, gather_blank (by decide)]
    exact fun heq => by cases heq

theorem filter_isBracket_behind (tokens : List Text) :
    (behind tokens).filter isBracket = (spaced tokens).filter isBracket := by
  cases tokens with
  | nil => rfl
  | cons token tokens =>
    rw [behind, List.filter_cons_of_neg (by decide)]
    exact fun heq => by cases heq

/-- The blanks between tokens are no brackets. -/
theorem filter_isBracket_spaced (tokens : List Text) :
    (spaced tokens).filter isBracket = tokens.flatten.filter isBracket := by
  induction tokens with
  | nil => rfl
  | cons token tokens ih =>
    rw [spaced_cons, List.filter_append, filter_isBracket_behind, ih, List.flatten_cons,
      List.filter_append]

theorem isBracket_of_isBlank {c : Char} (hc : isBlank c = true) : isBracket c = false := by
  rw [isBracket, Bool.or_eq_false_iff, decide_eq_false_iff_not, decide_eq_false_iff_not]
  refine ⟨?_, ?_⟩ <;>
  · rintro rfl
    exact absurd hc (by decide)

/-- No bracket of a text is missing in its tokens. -/
theorem Gathered.filter_isBracket (h : Gathered tokens parts) :
    tokens.flatten.filter isBracket = (parts.flatMap Item.text).filter isBracket := by
  induction h with
  | nil => rfl
  | nonterminal name h ih =>
    rw [List.flatten_cons, List.filter_append, ih, List.flatMap_cons, List.filter_append, Item.text]
  | blank hc h ih =>
    rw [ih, List.flatMap_cons, Item.text, List.singleton_append,
      List.filter_cons_of_neg (by simp [isBracket_of_isBlank hc])]
  | word hne hword hbreak h ih =>
    rw [List.flatten_cons, List.filter_append, ih, List.flatMap_append, List.filter_append,
      flatMap_text_map_char]

/-- No non-terminal starts in a word that is cut off by a blank, when none starts in it in front of
a text with the same brackets. -/
theorem items_word_append {word rest : Text} (hword : ∀ c ∈ word, isBlank c = false)
    (hrest : ∀ c ∈ rest.head?, isBlank c = true)
    (hbrackets : rest.filter isBracket = (parts.flatMap Item.text).filter isBracket)
    (h : Itemized (word.map .char ++ parts)) :
    items (word ++ rest) = word.map .char ++ items rest := by
  induction word with
  | nil => rfl
  | cons c word ih =>
    have hnone : nonterminal? (c :: (word ++ rest)) = none := by
      cases word with
      | nil => exact nonterminal?_eq_none_of_blank hrest
      | cons d word =>
        have hold := Itemized.nonterminal?_eq_none h
        rw [List.append_eq, List.flatMap_append, flatMap_text_map_char, List.cons_append] at hold
        refine (nonterminal?_eq_none_iff_of_filter_eq ?_).1 hold
        rw [List.append_eq, List.filter_append, List.filter_append, hbrackets]
    rw [List.cons_append, items_cons_of_eq_none hnone,
      ih (fun d hd => hword d (List.mem_cons_of_mem _ hd)) h.tail]
    rfl

theorem isBreak_items {t : Text} (h : ∀ c ∈ t.head?, isBlank c = true) : IsBreak (items t) := by
  intro c rest heq
  cases t with
  | nil =>
    rw [items_nil] at heq
    cases heq
  | cons d t =>
    cases hfound : nonterminal? (d :: t) with
    | some found =>
      rw [items_cons_of_eq_some hfound] at heq
      cases heq
    | none =>
      rw [items_cons_of_eq_none hfound] at heq
      cases heq
      exact h c rfl

/-- Written with blanks between them, tokens are read as the same tokens. -/
theorem Gathered.gather_items_spaced (h : Gathered tokens parts) (hparts : Itemized parts) :
    gather (items (spaced tokens)) = tokens := by
  induction h with
  | nil =>
    rw [spaced, List.intercalate_nil, items_nil]
    rfl
  | nonterminal name h ih =>
    rw [spaced_cons, items_symbolOf_append hparts.isName, gather_nonterminal, gather_items_behind,
      ih hparts.tail]
  | blank hc h ih => exact ih hparts.tail
  | @word word hne hword tokens parts hbreak h ih =>
    have hbrackets : (behind tokens).filter isBracket =
        (parts.flatMap Item.text).filter isBracket := by
      rw [filter_isBracket_behind, filter_isBracket_spaced, h.filter_isBracket]
    have hbehind := isBlank_head?_behind tokens
    rw [spaced_cons, items_word_append hword hbehind hbrackets hparts,
      gather_word hne hword (isBreak_items hbehind), gather_items_behind, ih hparts.of_append]

/-! ## Values of values

A value has no blanks but those inside its non-terminals. Read again, the non-terminals are still
there; the characters between them may now make up further ones, which have no blanks to lose. -/

theorem value_eq_self {a : Text} (h : ∀ c ∈ a, isBlank c = false) : value a = a := by
  rw [value_eq_flatMap]
  conv_rhs => rw [← flatMap_text_items a]
  refine List.flatMap_congr fun item hitem => ?_
  cases item with
  | nonterminal name => rfl
  | char c =>
    have hc : c ∈ a := by
      rw [← flatMap_text_items a]
      exact List.mem_flatMap.2 ⟨_, hitem, List.mem_singleton_self c⟩
    rw [Item.kept, h c hc]
    rfl

/-- What is kept of some items is kept again, also behind a text without blanks. A blank that is
kept stands in a non-terminal, which is one in the value too. -/
theorem value_append_flatMap_kept {parts : List Item}
    (hparts : ∀ name, .nonterminal name ∈ parts → IsName name) (front : Text)
    (hfront : ∀ c ∈ front, isBlank c = false) :
    value (front ++ parts.flatMap Item.kept) = front ++ parts.flatMap Item.kept := by
  induction parts generalizing front with
  | nil => rw [List.flatMap_nil, List.append_nil, value_eq_self hfront]
  | cons part parts ih =>
    have hrest : ∀ name, .nonterminal name ∈ parts → IsName name := fun name hmem =>
      hparts name (List.mem_cons_of_mem _ hmem)
    rw [List.flatMap_cons, ← List.append_assoc]
    cases part with
    | nonterminal name =>
      have hback := ih hrest [] fun _ hc => absurd hc List.not_mem_nil
      rw [List.nil_append] at hback
      rw [Item.kept, value_append_nonterminal (hparts name (List.mem_cons_self ..)),
        value_eq_self hfront, hback]
    | char c =>
      refine ih hrest _ fun d hd => ?_
      rcases List.mem_append.1 hd with hd | hd
      · exact hfront d hd
      · rw [Item.kept] at hd
        split at hd
        · cases hd
        · rename_i hc
          rw [List.mem_singleton.1 hd]
          exact Bool.eq_false_iff.2 hc

theorem value_value (a : Text) : value (value a) = value a := by
  rw [value_eq_flatMap a]
  exact value_append_flatMap_kept (fun name hname => isName_of_mem_items hname) []
    fun _ hc => absurd hc List.not_mem_nil

/-! ## All of it -/

/-- A text laid out as tokens: blanks, a token, blanks, a token, and so on, with blanks at the
end. -/
inductive LaidOut : List Text → Text → Prop where
  /-- Behind the last token there are only blanks. -/
  | blanks {gap : Text} (h : gap.isBlankOnly = true) : LaidOut [] gap
  /-- In front of a token there are only blanks. -/
  | token {gap token rest : Text} {tokens : List Text} (hgap : gap.isBlankOnly = true)
      (h : LaidOut tokens rest) : LaidOut (token :: tokens) (gap ++ token ++ rest)

theorem LaidOut.blank_cons {c : Char} (hc : isBlank c = true) {t : Text} (h : LaidOut tokens t) :
    LaidOut tokens (c :: t) := by
  have hcons : ∀ {gap : Text}, gap.isBlankOnly = true → Text.isBlankOnly (c :: gap) = true :=
    fun hgap => by rw [Text.isBlankOnly, List.all_cons, hc]; exact hgap
  cases h with
  | blanks hgap => exact .blanks (hcons hgap)
  | token hgap h => exact .token (hcons hgap) h

theorem LaidOut.cons (token : Text) {t : Text} (h : LaidOut tokens t) :
    LaidOut (token :: tokens) (token ++ t) := by
  have hgap : Text.isBlankOnly [] = true := rfl
  exact .token hgap h

theorem Gathered.laidOut (h : Gathered tokens parts) :
    LaidOut tokens (parts.flatMap Item.text) := by
  induction h with
  | nil => exact .blanks rfl
  | nonterminal name h ih => exact ih.cons (symbolOf name)
  | blank hc h ih => exact ih.blank_cons hc
  | word hne hword hbreak h ih =>
    rw [List.flatMap_append, flatMap_text_map_char]
    exact ih.cons _

/-- **The tokens of an alternative are faithful to its text.** Every non-terminal is one token
wherever it stands, and between non-terminals the tokens are the words; so a token that is no
non-terminal holds neither a blank nor a non-terminal. The tokens cover the text in order, up to
blanks. With blanks between them they are read as the same tokens again, and with nothing between
them they are a value that is its own value. -/
theorem tokens_faithful (a : Text) :
    (∀ front name back, IsName name → a = front ++ symbolOf name ++ back →
      Alternative.tokens a =
        Alternative.tokens front ++ symbolOf name :: Alternative.tokens back) ∧
    ((∀ name, IsName name → ¬ symbolOf name <:+: a) → Alternative.tokens a = a.words) ∧
    (∀ token ∈ Alternative.tokens a,
      (∃ name, IsName name ∧ token = symbolOf name) ∨ IsWord token) ∧
    LaidOut (Alternative.tokens a) a ∧
    Alternative.tokens (spaced (Alternative.tokens a)) = Alternative.tokens a ∧
    value (value a) = value a := by
  have hgathered := gathered (items a)
  have hitemized := itemized_items a
  refine ⟨fun front name back hname heq => ?_, tokens_eq_words,
    hgathered.nonterminal_or_isWord hitemized, ?_, hgathered.gather_items_spaced hitemized,
    value_value a⟩
  · rw [heq]
    exact tokens_append_nonterminal hname front back
  · have hlaid := hgathered.laidOut
    rwa [flatMap_text_items] at hlaid

/-- Stray brackets are parts of words, and only `<b c>` is a non-terminal here. -/
example : Alternative.tokens "<<b c>> a< d<>".toList =
    ["<".toList, "<b c>".toList, ">".toList, "a<".toList, "d<>".toList] := by
  decide +kernel

end Alternative

end GrammarTree
