import GrammarTree.Grammar.Rule
import GrammarTree.Proofs.Grammar.Pieces

/-!
# Written rules

A rule is written on one line. This file proves that the line reads back as the same rule, for every
rule that can be read at all.

The reading of a rule looks for a separator, and for nothing else before that. So the only thing
that can go wrong is that a separator comes about by the writing, inside the name, inside an
alternative or across two parts. Across two parts it cannot, because there is a blank between any
two and a separator holds none. Escapes do not make one either, since a separator holds neither a
backslash nor a pipe. The same reasoning applies to line feeds, and the lemmas are stated for any
text without blanks, pipes and backslashes.

What is here:

* `Text.IsPlain`, what is true of the parts of a rule that was read from one line: no line feed and
  no separator inside;
* `not_infix_side`: what occurs in no alternative does not occur in the written right-hand side;
* `separated_written`: the written separator is the only one;
* `Rule.Restorable`, with `Rule.Restorable.read_toText` and `Rule.restorable_of_read`: restorable
  rules read back, and rules that were read are restorable;
* `Rule.Writable`, which says so of the rules of a grammar text: their written form is one line.
-/

set_option autoImplicit false

namespace GrammarTree

/-! ## Plain texts -/

theorem hasSeparator_iff {t : Text} : hasSeparator t = true ↔ separator <:+: t := Text.occursIn_iff

/-- A text that may be part of a rule: it lies on one line and holds no separator. -/
structure Text.IsPlain (t : Text) : Prop where
  /-- It lies on one line. -/
  newline : '\n' ∉ t
  /-- It holds no separator. -/
  separator : ¬ GrammarTree.separator <:+: t

theorem prefix_of_prefix_append_cons (left : Text) {p right : Text} {c : Char} (hc : c ∉ p)
    (h : p <+: left ++ c :: right) : p <+: left := by
  have hleft : left ++ [c] <+: left ++ c :: right := by simp
  rcases List.prefix_or_prefix_of_prefix h hleft with h | h
  · rcases List.prefix_concat_iff.1 h with rfl | h
    · exact absurd (by simp) hc
    · exact h
  · exact absurd (h.subset (by simp)) hc

theorem infix_append_cons_iff {p left right : Text} {c : Char} (hc : c ∉ p) :
    p <:+: left ++ c :: right ↔ p <:+: left ∨ p <:+: right := by
  constructor
  · intro h
    induction left with
    | nil =>
      rcases List.infix_cons_iff.1 h with h | h
      · have hnil := List.prefix_nil.1 (prefix_of_prefix_append_cons [] hc h)
        exact Or.inl (hnil ▸ List.nil_infix)
      · exact Or.inr h
    | cons d left ih =>
      rcases List.infix_cons_iff.1 h with h | h
      · exact Or.inl (prefix_of_prefix_append_cons (d :: left) hc h).isInfix
      · exact (ih h).imp_left List.infix_cons
  · rintro (h | h)
    · exact List.infix_append_of_infix_left h
    · exact List.infix_append_of_infix_right (List.infix_cons h)

/-- A text does not start at a character that it does not hold. -/
theorem infix_cons_iff_of_notMem {p t : Text} {c : Char} (hne : p ≠ []) (hc : c ∉ p) :
    p <:+: c :: t ↔ p <:+: t := by
  rw [← List.nil_append (c :: t), infix_append_cons_iff hc, List.infix_nil, or_iff_right hne]

theorem newline_infix_iff {t : Text} : ['\n'] <:+: t ↔ '\n' ∈ t := List.singleton_infix_iff _ _

/-! ## What occurs in a right-hand side

Both directions are needed. What is not in the alternatives is not in the written side, so that the
written side has no separator; and what is in an alternative was in the side that it was cut from,
so that an alternative that was read has none. -/

variable {p : Text}

theorem exists_infix_of_infix_intercalate (hne : p ≠ []) (hblank : ' ' ∉ p) (hpipe : '|' ∉ p)
    {ts : List Text} (h : p <:+: List.intercalate [' ', '|', ' '] ts) : ∃ t ∈ ts, p <:+: t := by
  induction ts with
  | nil => exact absurd (List.infix_nil.1 h) hne
  | cons t ts ih =>
    cases ts with
    | nil => exact ⟨t, List.mem_singleton_self t, by rwa [List.intercalate_singleton] at h⟩
    | cons t' ts =>
      rw [List.intercalate_cons_cons, List.append_assoc] at h
      rcases (infix_append_cons_iff hblank).1 h with h | h
      · exact ⟨t, List.mem_cons_self .., h⟩
      · have hrest := (infix_cons_iff_of_notMem hne hblank).1
          ((infix_cons_iff_of_notMem hne hpipe).1 h)
        obtain ⟨t, ht, hinfix⟩ := ih hrest
        exact ⟨t, List.mem_cons_of_mem _ ht, hinfix⟩

/-- What occurs in no alternative does not occur in the written right-hand side. -/
theorem not_infix_side (hne : p ≠ []) (hblank : ' ' ∉ p) (hpipe : '|' ∉ p) (hslash : '\\' ∉ p)
    {as : List Text} (h : ∀ a ∈ as, ¬ p <:+: a) :
    ¬ p <:+: ' ' :: List.intercalate [' ', '|', ' '] (as.map Pieces.escape) := by
  intro hinfix
  have hrest := (infix_cons_iff_of_notMem hne hblank).1 hinfix
  obtain ⟨t, ht, hinfix⟩ := exists_infix_of_infix_intercalate hne hblank hpipe hrest
  obtain ⟨a, ha, rfl⟩ := List.mem_map.1 ht
  exact h a ha (Pieces.infix_of_infix_escape hpipe hslash hinfix)

/-- What occurs in an alternative occurs in the side that it was cut from, unless it holds a
pipe. -/
theorem infix_of_mem_alternativesOf (hpipe : '|' ∉ p) {side a : Text}
    (ha : a ∈ alternativesOf side) (h : p <:+: a) : p <:+: side := by
  obtain ⟨piece, hpiece, rfl⟩ := List.mem_map.1 ha
  have hwithin := Pieces.infix_intercalate ['|'] (Pieces.mem_dropEmptyTail hpiece)
  rw [Pieces.intercalate_cut] at hwithin
  have htrimmed := Pieces.infix_of_infix_unescape hpipe h
  exact (htrimmed.trans (Text.trim_isInfix piece)).trans hwithin

theorem isTrimmed_of_mem_alternativesOf {side a : Text} (ha : a ∈ alternativesOf side) :
    a.IsTrimmed := by
  obtain ⟨piece, -, rfl⟩ := List.mem_map.1 ha
  exact Pieces.isTrimmed_unescape (Text.isTrimmed_trim piece)

/-! ## Separated parts -/

theorem separated_cons {c : Char} {t : Text} (h : ¬ separator <+: c :: t) :
    separated (c :: t) = (separated t).modifyHead (c :: ·) := by
  rw [separated]
  rintro t' rfl rfl
  exact h (by simp [separator])

theorem separated_ne_nil (t : Text) : separated t ≠ [] := by
  fun_induction separated t with
  | case1 => exact List.cons_ne_nil _ _
  | case2 t ih => exact List.cons_ne_nil _ _
  | case3 c t _ ih => rwa [Ne, List.modifyHead_eq_nil_iff]

theorem separated_eq_singleton {t : Text} (h : ¬ separator <:+: t) : separated t = [t] := by
  induction t with
  | nil => rfl
  | cons c t ih =>
    have htail := ih fun hsep => h (List.infix_cons hsep)
    rw [separated_cons fun hsep => h hsep.isInfix, htail, List.modifyHead_cons]

/-- The written separator is the first one when there is none in front of the blank. -/
theorem separated_written {left right : Text} (h : ¬ separator <:+: left) :
    separated (left ++ ' ' :: separator ++ right) = (left ++ [' ']) :: separated right := by
  induction left with
  | nil => rfl
  | cons c left ih =>
    have hne : ¬ separator <+: c :: (left ++ ' ' :: separator ++ right) := by
      intro hprefix
      rw [List.append_assoc, ← List.cons_append, List.cons_append] at hprefix
      exact h (prefix_of_prefix_append_cons _ (by decide) hprefix).isInfix
    rw [List.cons_append, List.cons_append, separated_cons hne,
      ih fun hsep => h (List.infix_cons hsep), List.modifyHead_cons]
    rfl

theorem intercalate_separated (t : Text) : List.intercalate separator (separated t) = t := by
  fun_induction separated t with
  | case1 => rfl
  | case2 t ih =>
    cases hparts : separated t with
    | nil => exact absurd hparts (separated_ne_nil t)
    | cons part parts =>
      rw [hparts] at ih
      rw [List.intercalate_cons_cons, ih]
      rfl
  | case3 c t _ ih =>
    cases hparts : separated t with
    | nil => exact absurd hparts (separated_ne_nil t)
    | cons part parts =>
      rw [hparts] at ih
      rw [List.modifyHead_cons, ← ih]
      cases parts with
      | nil => rfl
      | cons part' parts => rw [List.intercalate_cons_cons, List.intercalate_cons_cons]; rfl

theorem head_separated_prefix {t part : Text} {parts : List Text}
    (h : separated t = part :: parts) : part <+: t := by
  rw [← intercalate_separated t, h]
  cases parts with
  | nil => rw [List.intercalate_singleton]
  | cons part' parts =>
    rw [List.intercalate_cons_cons, List.append_assoc]
    exact List.prefix_append _ _

/-- No separator is left in the parts between separators. -/
theorem not_infix_of_mem_separated {t part : Text} (h : part ∈ separated t) :
    ¬ separator <:+: part := by
  induction t using separated.induct generalizing part with
  | case1 =>
    rw [List.mem_singleton.1 h]
    decide
  | case2 t ih =>
    rcases List.mem_cons.1 h with rfl | h
    · decide
    · exact ih h
  | case3 c t hc ih =>
    have hstart : ¬ separator <+: c :: t := by
      rintro ⟨rest, hrest⟩
      cases hrest
      exact hc rest rfl rfl
    rw [separated_cons hstart] at h
    cases hparts : separated t with
    | nil => exact absurd hparts (separated_ne_nil t)
    | cons first parts =>
      rw [hparts] at h ih
      rcases List.mem_cons.1 h with rfl | h
      · intro hsep
        rcases List.infix_cons_iff.1 hsep with hsep | hsep
        · refine hstart (hsep.trans ?_)
          exact List.cons_prefix_cons.2 ⟨rfl, head_separated_prefix hparts⟩
        · exact ih (List.mem_cons_self ..) hsep
      · exact ih (List.mem_cons_of_mem _ h)

/-! ## Rules -/

theorem isTrimmed_symbolOf (name : Text) : (symbolOf name).IsTrimmed := by
  refine ⟨fun c hc => ?_, fun c hc => ?_⟩
  · cases hc
    rfl
  · rw [symbolOf, List.getLast?_concat] at hc
    cases hc
    rfl

namespace Rule

/-- A rule that its written form gives back: no separator stands in its name or in an alternative,
and its alternatives are trimmed. -/
structure Restorable (r : Rule) : Prop where
  /-- The name holds no separator. -/
  name : ¬ separator <:+: r.name
  /-- The alternatives hold no separator and are trimmed. -/
  alternatives : ∀ a ∈ r.alternatives, ¬ separator <:+: a ∧ a.trim = a

/-- A rule that can be written on one line: its parts are plain, and its alternatives are
trimmed. -/
structure Writable (r : Rule) : Prop where
  /-- The symbol is plain. -/
  symbol : r.symbol.IsPlain
  /-- The alternatives are plain and trimmed. -/
  alternatives : ∀ a ∈ r.alternatives, a.IsPlain ∧ a.IsTrimmed

variable {r : Rule}

theorem ofParts_self (r : Rule) (line : Option Int) :
    ofParts line r.name r.alternatives = .ok { r with line := line } := by
  obtain ⟨old, name, first, others, hname, hfirst⟩ := r
  cases name with
  | nil => exact absurd rfl hname
  | cons c name =>
    cases first with
    | nil => exact absurd rfl hfirst
    | cons d first => rfl

theorem eq_of_ofParts {line : Option Int} {name : Text} {alternatives : List Text}
    (h : ofParts line name alternatives = .ok r) :
    r.line = line ∧ r.name = name ∧ r.alternatives = alternatives := by
  unfold ofParts at h
  split at h
  · cases h
    exact ⟨rfl, rfl, rfl⟩
  · cases h
  · cases h
  · cases h

theorem isPlaceholder_symbol (r : Rule) : isPlaceholder r.symbol = true :=
  isPlaceholder_iff.2 ⟨r.name, r.name_ne_nil, rfl⟩

theorem isTrimmed_symbol (r : Rule) : r.symbol.IsTrimmed := isTrimmed_symbolOf r.name

/-- What a rule that was read says about its text. -/
theorem read_eq_ok {text : Text} {line : Option Int} (h : read text line = .ok r) :
    ∃ left right, separated text = [left, right] ∧ left.trim = r.symbol ∧
      alternativesOf right = r.alternatives ∧ r.line = line := by
  rw [read] at h
  split at h
  · rename_i left right hparts
    split at h
    · rename_i hname
      split at h
      · rename_i rule hrule
        cases h
        obtain ⟨hline, hbare, halternatives⟩ := eq_of_ofParts hrule
        refine ⟨left, right, hparts, ?_, halternatives.symm, hline⟩
        rw [symbol, hbare]
        exact (eq_symbolOf_of_isPlaceholder hname).2
      · cases h
    · cases h
  · cases h

theorem separator_infix_symbol_iff (r : Rule) :
    separator <:+: r.symbol ↔ separator <:+: r.name := by
  have hopened : separator <:+: r.symbol ↔ separator <:+: r.name ++ ['>'] :=
    infix_cons_iff_of_notMem (by decide) (by decide)
  rw [hopened, infix_append_cons_iff (by decide), or_iff_left (by decide)]

theorem restorable_of_read {text : Text} {line : Option Int} (h : read text line = .ok r) :
    r.Restorable := by
  obtain ⟨left, right, hparts, hsymbol, halternatives, -⟩ := read_eq_ok h
  refine ⟨fun hsep => ?_, fun a ha => ?_⟩
  · rw [← separator_infix_symbol_iff, ← hsymbol] at hsep
    have hleft : left ∈ separated text := by simp [hparts]
    exact not_infix_of_mem_separated hleft (hsep.trans (Text.trim_isInfix left))
  · rw [← halternatives] at ha
    have hright : right ∈ separated text := by simp [hparts]
    exact ⟨fun hsep => not_infix_of_mem_separated hright
      (infix_of_mem_alternativesOf (by decide) ha hsep),
      Text.trim_eq_self_iff.2 (isTrimmed_of_mem_alternativesOf ha)⟩

/-- **The written form of a rule reads back as the rule.** -/
theorem Restorable.read_toText (h : r.Restorable) (line : Option Int) :
    read r.toText line = .ok { r with line := line } := by
  have hsymbol : ¬ separator <:+: r.symbol := fun hsep =>
    h.name ((separator_infix_symbol_iff r).1 hsep)
  have hside := not_infix_side (by decide) (by decide) (by decide) (by decide)
    fun a ha => (h.alternatives a ha).1
  have hleft : (r.symbol ++ [' ']).trim = r.symbol := by
    have hpad : Text.trim ([] ++ r.symbol ++ [' ']) = r.symbol :=
      r.isTrimmed_symbol.trim_pad rfl (by decide)
    rwa [List.nil_append] at hpad
  have hbetween : Text.isBetween r.symbol ['<'] ['>'] = true := r.isPlaceholder_symbol
  have halternatives := alternativesOf_written r.first r.others
    fun a ha => Text.trim_eq_self_iff.1 (h.alternatives a ha).2
  rw [read, toText, separated_written hsymbol, separated_eq_singleton hside]
  simp only [hleft, hbetween, if_true]
  rw [Rule.alternatives, halternatives, Rule.symbol, bareName_symbolOf]
  rw [← Rule.alternatives, ofParts_self]

/-! ## Rules on one line

A rule may hold a line feed if it was made by hand or read from a text with one. The rules of a
grammar text are read from blocks, and these have none. -/

theorem newline_notMem_of_read {text : Text} {line : Option Int} (htext : '\n' ∉ text)
    (h : read text line = .ok r) : '\n' ∉ r.symbol ∧ ∀ a ∈ r.alternatives, '\n' ∉ a := by
  obtain ⟨left, right, hparts, hsymbol, halternatives, -⟩ := read_eq_ok h
  have hpart : ∀ part ∈ separated text, '\n' ∉ part := by
    intro part hpart hmem
    have hwithin := Pieces.infix_intercalate separator hpart
    rw [intercalate_separated] at hwithin
    exact htext (hwithin.subset hmem)
  rw [hparts] at hpart
  refine ⟨fun hmem => ?_, fun a ha hmem => ?_⟩
  · rw [← hsymbol] at hmem
    exact hpart left (by simp) ((Text.trim_isInfix left).subset hmem)
  · rw [← halternatives] at ha
    have hinfix := infix_of_mem_alternativesOf (by decide) ha (newline_infix_iff.2 hmem)
    exact hpart right (by simp) (newline_infix_iff.1 hinfix)

theorem writable_of_read {text : Text} {line : Option Int} (htext : '\n' ∉ text)
    (h : read text line = .ok r) : r.Writable := by
  have hrestorable := restorable_of_read h
  obtain ⟨hsymbol, halternatives⟩ := newline_notMem_of_read htext h
  refine ⟨⟨hsymbol, fun hsep => hrestorable.name ((separator_infix_symbol_iff r).1 hsep)⟩,
    fun a ha => ?_⟩
  obtain ⟨hseparator, htrim⟩ := hrestorable.alternatives a ha
  exact ⟨⟨halternatives a ha, hseparator⟩, Text.trim_eq_self_iff.1 htrim⟩

theorem Writable.restorable (h : r.Writable) : r.Restorable := by
  refine ⟨fun hsep => h.symbol.separator ((separator_infix_symbol_iff r).2 hsep), fun a ha => ?_⟩
  obtain ⟨hplain, htrimmed⟩ := h.alternatives a ha
  exact ⟨hplain.separator, Text.trim_eq_self_iff.2 htrimmed⟩

theorem Writable.newline_notMem_toText (h : r.Writable) : '\n' ∉ r.toText := by
  have hside := not_infix_side (by decide) (by decide) (by decide) (by decide)
    fun a ha hinfix => (h.alternatives a ha).1.newline (newline_infix_iff.1 hinfix)
  rw [toText, List.mem_append, List.mem_append, not_or, not_or]
  exact ⟨⟨h.symbol.newline, by decide⟩, fun hmem => hside (newline_infix_iff.2 hmem)⟩

theorem hasSeparator_toText (r : Rule) : hasSeparator r.toText = true := by
  refine hasSeparator_iff.2 ?_
  rw [toText, List.append_assoc, List.cons_append]
  exact List.infix_append_of_infix_right (List.infix_cons List.infix_append_left)

end Rule

end GrammarTree
