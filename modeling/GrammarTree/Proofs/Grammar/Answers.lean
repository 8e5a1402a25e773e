import GrammarTree.Proofs.Grammar.Values

/-!
# What an index answers

An index is filled alternative by alternative, and rules of one name, alternatives of one value and
tokens of one symbol meet in it. This file puts its answers together: each of them is what the rules
say, in document order and whatever is repeated.

The producers and the spelling of a value are found in one entry, and what an entry says is proved
in `Proofs.Grammar.Values`. The order of the values is a matter of all entries together. It is
stated without the index: a list has everything that occurs in another list, once, and the position
of a text in it is decided by where the text occurs first. That is what recording one more
alternative keeps, and the answer for a whole grammar follows by induction over its alternatives.

What is here:

* `ListsInOrder`, a list of everything that occurs in another one, in the order of the first
  occurrences;
* `Index.listsInOrder_record`, what recording an alternative keeps of it, and
  `Index.listsInOrder_values`: the values of an index are such a list;
* `Index.answers_of_rules`: the producers, the values and the spellings of an index.
-/

set_option autoImplicit false

namespace GrammarTree

/-! ## First occurrences

Such a list is unique, since no two of its texts can be exchanged. It grows at its end only, by a
text that has not occurred. -/

/-- Whether a list has everything that occurs in another one, once each, in the order of the first
occurrences. -/
structure ListsInOrder (written listed : List Text) : Prop where
  /-- It lists what occurs. -/
  mem_iff : ∀ t, t ∈ listed ↔ t ∈ written
  /-- What is listed later occurs later for the first time. -/
  ordered : listed.Pairwise fun s t => written.idxOf s < written.idxOf t

namespace ListsInOrder

variable {written listed : List Text}

theorem nodup (h : ListsInOrder written listed) : listed.Nodup :=
  h.ordered.imp fun hlt heq => by
    rw [heq] at hlt
    exact absurd hlt (Nat.lt_irrefl _)

/-- One more text is listed at the end, unless it is listed. -/
theorem concat (h : ListsInOrder written listed) (t : Text) :
    ListsInOrder (written ++ [t]) (if t ∈ listed then listed else listed ++ [t]) := by
  have hidx : ∀ s ∈ listed, (written ++ [t]).idxOf s = written.idxOf s := fun s hs =>
    List.idxOf_append_of_mem ((h.mem_iff s).1 hs)
  have hordered : listed.Pairwise fun s s' =>
      (written ++ [t]).idxOf s < (written ++ [t]).idxOf s' := by
    refine h.ordered.imp_of_mem fun hs hs' hlt => ?_
    rwa [hidx _ hs, hidx _ hs']
  split
  · rename_i ht
    refine ⟨fun s => ?_, hordered⟩
    rw [List.mem_append, List.mem_singleton, ← h.mem_iff]
    exact ⟨Or.inl, fun hs => hs.elim id fun heq => heq ▸ ht⟩
  · rename_i ht
    refine ⟨fun s => ?_, List.pairwise_append.2 ⟨hordered, List.pairwise_singleton _ _, ?_⟩⟩
    · rw [List.mem_append, List.mem_append, h.mem_iff]
    · intro s hs s' hs'
      have hnew : t ∉ written := fun hmem => ht ((h.mem_iff t).2 hmem)
      rw [List.mem_singleton.1 hs', hidx s hs, List.idxOf_append_of_notMem hnew]
      exact Nat.lt_of_lt_of_le (List.idxOf_lt_length_iff.2 ((h.mem_iff s).1 hs))
        (Nat.le_add_right _ _)

end ListsInOrder

namespace Index

/-! ## Values in order -/

theorem listsInOrder_record {written : List Text} {entries : List Entry}
    (h : ListsInOrder written (entries.map Entry.value)) (owner alternative : Text) :
    ListsInOrder (written ++ [Alternative.value alternative])
      ((record owner alternative entries).map Entry.value) := by
  rw [map_value_record]
  exact h.concat _

theorem listsInOrder_foldl (owned : List (Text × Text)) {written : List Text}
    {entries : List Entry} (h : ListsInOrder written (entries.map Entry.value)) :
    ListsInOrder (written ++ owned.map fun o => Alternative.value o.2)
      ((owned.foldl (fun entries o => record o.1 o.2 entries) entries).map Entry.value) := by
  induction owned generalizing written entries with
  | nil => rwa [List.map_nil, List.append_nil]
  | cons o owned ih =>
    have hrest := ih (listsInOrder_record h o.1 o.2)
    rwa [List.append_assoc] at hrest

theorem listsInOrder_values (rules : List Rule) :
    ListsInOrder ((rules.flatMap Rule.alternatives).map Alternative.value)
      (ofRules rules).values := by
  have hempty : ListsInOrder [] (([] : List Entry).map Entry.value) := ⟨fun _ => Iff.rfl, .nil⟩
  rw [← map_snd_owned, List.map_map]
  exact listsInOrder_foldl (owned rules) hempty

/-! ## Answers -/

theorem mem_valid {rules : List (Option Rule)} {r : Rule} :
    r ∈ Grammar.valid rules ↔ some r ∈ rules := by
  simp [Grammar.valid]

/-- The spelling of a value stands in front of all other alternatives of this value. -/
theorem exists_append_spelling {rules : List Rule} {value : Text}
    (h : value ∈ (ofRules rules).values) :
    ∃ front back,
      rules.flatMap Rule.alternatives = front ++ (ofRules rules).spelling value :: back ∧
      Alternative.value ((ofRules rules).spelling value) = value ∧
      ∀ a ∈ front, Alternative.value a ≠ value := by
  obtain ⟨hvalue, front, back, heq, hfront⟩ :=
    List.find?_eq_some_iff_append.1 (find?_alternatives h)
  exact ⟨front, back, heq, by simpa using hvalue, fun a ha => by simpa using hfront a ha⟩

/-- **An index answers what the rules say.** The producers of a value are the symbols of the rules
with an alternative of this value or, for a placeholder, with an alternative that has it among its
tokens. The values are those of the alternatives, each of them once, in the order in which they
first occur. A value is spelled as the first alternative that has it. -/
theorem answers_of_rules (rules : List (Option Rule)) :
    (∀ value name, name ∈ (ofRules (Grammar.valid rules)).producers value ↔
      ∃ r, some r ∈ rules ∧ r.symbol = name ∧ ∃ a ∈ r.alternatives, Alternative.value a = value ∨
        (isPlaceholder value = true ∧ value ∈ Alternative.tokens a)) ∧
    (ofRules (Grammar.valid rules)).values.Nodup ∧
    ListsInOrder (((Grammar.valid rules).flatMap Rule.alternatives).map Alternative.value)
      (ofRules (Grammar.valid rules)).values ∧
    ∀ value ∈ (ofRules (Grammar.valid rules)).values, ∃ front back,
      (Grammar.valid rules).flatMap Rule.alternatives =
          front ++ (ofRules (Grammar.valid rules)).spelling value :: back ∧
        Alternative.value ((ofRules (Grammar.valid rules)).spelling value) = value ∧
        ∀ a ∈ front, Alternative.value a ≠ value := by
  have hvalues := listsInOrder_values (Grammar.valid rules)
  refine ⟨fun value name => ?_, hvalues.nodup, hvalues, fun value => exists_append_spelling⟩
  simp only [mem_producers_ofRules, mem_valid]

/-- Rules that write one value in two ways, with a malformed rule between them. -/
def respelledText : Text := "<a> ::= y  z | <b>
<c ::= q
<b> ::= y z | q".toList

theorem answers_of_rules_of_respelledText :
    (Grammar.read respelledText).map Option.isSome = [true, false, true] ∧
    "<a>".toList ∈ (ofRules (Grammar.rules respelledText)).producers "<b>".toList ∧
    (ofRules (Grammar.rules respelledText)).spelling "yz".toList = "y  z".toList := by
  obtain ⟨hproducers, -, hvalues, hspelling⟩ := answers_of_rules (Grammar.read respelledText)
  have halternatives : (Grammar.rules respelledText).flatMap Rule.alternatives =
      ["y  z".toList, "<b>".toList, "y z".toList, ['q']] := by decide +kernel
  refine ⟨by decide +kernel, ?_, ?_⟩
  · obtain ⟨r, hr, hsymbol, halternative⟩ : ∃ r ∈ Grammar.rules respelledText,
        r.symbol = "<a>".toList ∧ "<b>".toList ∈ r.alternatives := by decide +kernel
    exact (hproducers _ _).2
      ⟨r, mem_valid.1 hr, hsymbol, "<b>".toList, halternative, Or.inl (by decide +kernel)⟩
  · obtain ⟨front, back, heq, -, hfront⟩ := hspelling "yz".toList ((hvalues.mem_iff _).2 (by
      rw [← Grammar.rules, halternatives]
      decide +kernel))
    rw [← Grammar.rules, halternatives] at heq
    cases front with
    | nil => exact (List.cons.inj heq).1.symm
    | cons a front =>
      obtain rfl := (List.cons.inj heq).1
      exact absurd (by decide +kernel) (hfront _ (List.mem_cons_self ..))

end Index

end GrammarTree
