import GrammarTree.Proofs.Grammar.Producers
import Mathlib.Data.List.Nodup

/-!
# The values of an index

An index has one entry for each value that an alternative has, in the order in which the values
first occur. Alternatives that differ only in their blanks share an entry, and its spelling is the
one that was written first. This file says so in terms of the rules alone.

It also compares the index with another way to fill it. An entry keeps the producers and the
spelling of a value together, where two tables would keep them apart, each filled in a pass of its
own. That nothing depends on keeping them together is a theorem: the entries are the two tables side
by side.

What is here:

* `Index.mem_values_ofRules` and `Index.nodup_values_ofRules`: the values of an index are the values
  of the alternatives, each of them once;
* `Index.spelling_ofRules`: a value is spelled as the first alternative that has it;
* `Index.producerTable` and `Index.secondPass`, the tables of the two passes, with
  `Index.ofRules_eq_two_passes`;
* `Index.answers_of_two_passes`: the answers of an index are look-ups in the tables.
-/

set_option autoImplicit false

namespace GrammarTree

namespace Index

/-! ## Values -/

/-- A recorded alternative adds its value at the end, unless the value is there. -/
theorem map_value_record (owner alternative : Text) (entries : List Entry) :
    (record owner alternative entries).map Entry.value =
      if Alternative.value alternative ∈ entries.map Entry.value then entries.map Entry.value
      else entries.map Entry.value ++ [Alternative.value alternative] := by
  induction entries with
  | nil => rfl
  | cons e entries ih =>
    rw [record, List.map_cons]
    by_cases h : e.value = Alternative.value alternative
    · rw [if_pos h, if_pos (h ▸ List.mem_cons_self ..), List.map_cons]
    · have hmem : Alternative.value alternative ∈ e.value :: entries.map Entry.value ↔
          Alternative.value alternative ∈ entries.map Entry.value :=
        List.mem_cons.trans (or_iff_right (Ne.symm h))
      rw [if_neg h, List.map_cons, ih]
      simp only [hmem]
      split <;> rfl

theorem mem_values_foldl (value : Text) (owned : List (Text × Text)) (entries : List Entry) :
    value ∈ (owned.foldl (fun entries o => record o.1 o.2 entries) entries).map Entry.value ↔
      (∃ o ∈ owned, Alternative.value o.2 = value) ∨ value ∈ entries.map Entry.value := by
  induction owned generalizing entries with
  | nil => simp
  | cons o owned ih =>
    have hrecord : value ∈ (record o.1 o.2 entries).map Entry.value ↔
        Alternative.value o.2 = value ∨ value ∈ entries.map Entry.value := by
      rw [map_value_record]
      split
      · rename_i h
        exact ⟨Or.inr, fun hvalue => hvalue.elim (fun heq => heq ▸ h) id⟩
      · rw [List.mem_append, List.mem_singleton, or_comm, @eq_comm _ value]
    rw [List.foldl_cons, ih, hrecord, List.exists_mem_cons_iff, or_left_comm, or_assoc]

theorem nodup_values_foldl (owned : List (Text × Text)) {entries : List Entry}
    (h : (entries.map Entry.value).Nodup) :
    ((owned.foldl (fun entries o => record o.1 o.2 entries) entries).map Entry.value).Nodup := by
  induction owned generalizing entries with
  | nil => exact h
  | cons o owned ih =>
    refine ih ?_
    rw [map_value_record]
    split
    · exact h
    · rename_i hnew
      exact List.nodup_append.2 ⟨h, List.nodup_singleton _, fun v hv w hw heq =>
        hnew (List.mem_singleton.1 hw ▸ heq ▸ hv)⟩

theorem mem_values_ofRules {rules : List Rule} {value : Text} :
    value ∈ (ofRules rules).values ↔ ∃ o ∈ owned rules, Alternative.value o.2 = value := by
  refine (mem_values_foldl value (owned rules) []).trans ?_
  rw [List.map_nil, or_iff_left List.not_mem_nil]

theorem nodup_values_ofRules (rules : List Rule) : (ofRules rules).values.Nodup :=
  nodup_values_foldl (owned rules) List.nodup_nil

/-! ## Spellings -/

/-- The spelling that is recorded for a value. -/
def spellingIn? (entries : List Entry) (value : Text) : Option Text :=
  (entries.find? fun e => e.value = value).map Entry.spelling

theorem spellingIn?_cons (e : Entry) (entries : List Entry) (value : Text) :
    spellingIn? (e :: entries) value =
      if e.value = value then some e.spelling else spellingIn? entries value := by
  rw [spellingIn?, List.find?_cons]
  by_cases h : e.value = value <;> simp [h, spellingIn?]

/-- A recorded alternative becomes the spelling of its value, unless the value has one. -/
theorem spellingIn?_record (owner alternative value : Text) (entries : List Entry) :
    spellingIn? (record owner alternative entries) value =
      (spellingIn? entries value).or
        (if Alternative.value alternative = value then some alternative else none) := by
  induction entries with
  | nil => rw [record, spellingIn?_cons]; rfl
  | cons e entries ih =>
    rw [record]
    split
    · rename_i hvalue
      rw [spellingIn?_cons, spellingIn?_cons, ← hvalue]
      by_cases h : e.value = value <;> simp [h]
    · rename_i hvalue
      rw [spellingIn?_cons, spellingIn?_cons, ih]
      by_cases h : e.value = value <;> simp [h]

theorem spellingIn?_foldl (value : Text) (owned : List (Text × Text)) (entries : List Entry) :
    spellingIn? (owned.foldl (fun entries o => record o.1 o.2 entries) entries) value =
      (spellingIn? entries value).or
        ((owned.map Prod.snd).find? fun a => Alternative.value a = value) := by
  induction owned generalizing entries with
  | nil => simp
  | cons o owned ih =>
    rw [List.foldl_cons, ih, spellingIn?_record, Option.or_assoc, List.map_cons, List.find?_cons]
    by_cases h : Alternative.value o.2 = value <;> simp [h]

theorem map_snd_owned (rules : List Rule) :
    (owned rules).map Prod.snd = rules.flatMap Rule.alternatives := by
  simp [owned, List.map_flatMap, Function.comp_def]

/-- A value is spelled as the first alternative that has it. -/
theorem spelling_ofRules (rules : List Rule) (value : Text) :
    (ofRules rules).spelling value =
      ((rules.flatMap Rule.alternatives).find? fun a => Alternative.value a = value).getD value :=
  map_snd_owned rules ▸
    congrArg (Option.getD · value) (spellingIn?_foldl value (owned rules) [])

theorem find?_alternatives {rules : List Rule} {value : Text} (h : value ∈ (ofRules rules).values) :
    (rules.flatMap Rule.alternatives).find? (fun a => Alternative.value a = value) =
      some ((ofRules rules).spelling value) := by
  obtain ⟨o, ho, hvalue⟩ := mem_values_ofRules.1 h
  have hmem : o.2 ∈ rules.flatMap Rule.alternatives := by
    rw [← map_snd_owned]
    exact List.mem_map_of_mem ho
  cases hfind : (rules.flatMap Rule.alternatives).find? fun a => Alternative.value a = value with
  | none => exact absurd (decide_eq_true hvalue) (List.find?_eq_none.1 hfind o.2 hmem)
  | some a => rw [spelling_ofRules, hfind, Option.getD_some]

/-! ## Two passes

An index keeps all it knows about a value in one entry and is filled in one pass. The producers and
the spellings can also be kept in tables of their own: a first pass over the rules enters the
producers, and a second one enters the spellings, under the joined tokens, together with the uses.
Each pass might leave its table in an order of its own. They do not: a value comes into both
tables at the same alternative, so that the entries are the two tables side by side. -/

/-- A table with texts as keys, in the order in which they came in. -/
abbrev Table (α : Type) := List (Text × α)

/-- Changes what a table has for a key. A key that it does not have comes in at the end. -/
def Table.enter {α : Type} (key : Text) (first : α) (again : α → α) : Table α → Table α
  | [] => [(key, first)]
  | row :: rows =>
    if row.1 = key then (row.1, again row.2) :: rows else row :: Table.enter key first again rows

/-- The first pass: the producers of the values. -/
def producerTable (rules : List Rule) : Table NameSet :=
  rules.foldl (fun table r => r.alternatives.foldl (fun table a =>
    Table.enter (Alternative.value a) (NameSet.empty.insert r.symbol) (·.insert r.symbol) table)
    table) []

/-- What the second pass fills. -/
structure SecondPass where
  /-- The spellings of the values. -/
  spellings : Table Text
  /-- The non-terminals that occur as tokens. -/
  uses : List Use

/-- Takes the tokens of an alternative: they are the key for its spelling, and the non-terminals
among them are uses. -/
def SecondPass.take (p : SecondPass) (owner alternative : Text) : SecondPass :=
  let tokens := Alternative.tokens alternative
  { spellings := Table.enter tokens.flatten alternative id p.spellings
    uses := tokens.foldl
      (fun uses token => if isPlaceholder token then recordUse owner token uses else uses) p.uses }

/-- The second pass: the spellings of the values, and the uses. -/
def secondPass (rules : List Rule) : SecondPass :=
  rules.foldl (fun p r => r.alternatives.foldl (fun p a => p.take r.symbol a) p) ⟨[], []⟩

/-- A pass over the rules and their alternatives is one over the alternatives with their owners. -/
theorem foldl_owned {σ : Type} (step : σ → Text × Text → σ) (rules : List Rule) (first : σ) :
    rules.foldl (fun s r => r.alternatives.foldl (fun s a => step s (r.symbol, a)) s) first =
      (owned rules).foldl step first := by
  simp only [owned, List.foldl_flatMap, List.foldl_map]

/-- One part of the entries, under their values, is a table into which a recorded alternative is
entered. -/
theorem map_record {α : Type} (part : Entry → α) (again : α → α) {owner : Text}
    (hagain : ∀ e : Entry, part { e with producers := e.producers.insert owner } = again (part e))
    (alternative : Text) (entries : List Entry) :
    Table.enter (Alternative.value alternative)
        (part ⟨Alternative.value alternative, alternative, NameSet.empty.insert owner⟩) again
        (entries.map fun e => (e.value, part e)) =
      (record owner alternative entries).map fun e => (e.value, part e) := by
  induction entries with
  | nil => rfl
  | cons e entries ih =>
    rw [record, List.map_cons, Table.enter]
    split
    · rw [List.map_cons, hagain]
    · rw [List.map_cons, ih]

/-- A pass that enters one part of what is recorded comes to this part of the entries. -/
theorem foldl_enter {α : Type} (part : Entry → α) (again : Text → α → α)
    (hagain : ∀ (owner : Text) (e : Entry),
      part { e with producers := e.producers.insert owner } = again owner (part e))
    (owned : List (Text × Text)) :
    owned.foldl (fun table o => Table.enter (Alternative.value o.2)
        (part ⟨Alternative.value o.2, o.2, NameSet.empty.insert o.1⟩) (again o.1) table) [] =
      (owned.foldl (fun entries o => record o.1 o.2 entries) []).map
        fun e => (e.value, part e) :=
  @List.foldl_hom _ _ _ (fun entries : List Entry => entries.map fun e => (e.value, part e)) _ _
    owned [] fun entries o => map_record part (again o.1) (hagain o.1) o.2 entries

theorem producerTable_eq (rules : List Rule) :
    producerTable rules = (ofRules rules).entries.map fun e => (e.value, e.producers) := by
  have hpass := foldl_enter Entry.producers (fun owner producers => producers.insert owner)
    (fun _ _ => rfl) (owned rules)
  rwa [← foldl_owned] at hpass

theorem secondPass_eq (rules : List Rule) :
    secondPass rules = (owned rules).foldl (fun p o => p.take o.1 o.2) ⟨[], []⟩ :=
  foldl_owned (fun p o => SecondPass.take p o.1 o.2) rules _

theorem spellings_secondPass (rules : List Rule) :
    (secondPass rules).spellings = (ofRules rules).entries.map fun e => (e.value, e.spelling) := by
  have hpass := foldl_enter Entry.spelling (fun _ spelling => spelling) (fun _ _ => rfl)
    (owned rules)
  rw [secondPass_eq]
  exact (List.foldl_hom SecondPass.spellings fun _ _ => rfl).symm.trans hpass

theorem uses_secondPass (rules : List Rule) : (secondPass rules).uses = (ofRules rules).uses := by
  have hstep : ∀ (p : SecondPass) (o : Text × Text),
      (nonterminals o.2).foldl (fun uses symbol => recordUse o.1 symbol uses) p.uses =
        (p.take o.1 o.2).uses := fun p o => List.foldl_filter
  rw [secondPass_eq]
  exact (List.foldl_hom SecondPass.uses hstep).symm

/-- **The entries are the two tables side by side.** Neither pass has a value that the other one
lacks, and both have them in the same order. -/
theorem ofRules_eq_two_passes (rules : List Rule) :
    ofRules rules =
      { rules := rules
        entries := List.zipWith (fun producers spelling =>
          ⟨producers.1, spelling.2, producers.2⟩) (producerTable rules)
          (secondPass rules).spellings
        uses := (secondPass rules).uses } := by
  have hentries : List.zipWith (fun producers spelling =>
      (⟨producers.1, spelling.2, producers.2⟩ : Entry)) (producerTable rules)
      (secondPass rules).spellings = (ofRules rules).entries := by
    rw [producerTable_eq, spellings_secondPass, List.zipWith_map, List.zipWith_self]
    exact List.map_id _
  rw [hentries, uses_secondPass]
  rfl

theorem lookup_map_entries {α : Type} (part : Entry → α) (value : Text) (entries : List Entry) :
    (entries.map fun e => (e.value, part e)).lookup value =
      (entries.find? fun e => e.value = value).map part := by
  induction entries with
  | nil => rfl
  | cons e entries ih =>
    have hsame : (value == e.value) = decide (e.value = value) := by
      rw [Bool.beq_comm, Bool.beq_eq_decide_eq]
    rw [List.map_cons, List.lookup_cons, List.find?_cons, ih, hsame]
    split <;> rfl

/-- The answers of an index are look-ups in the tables. -/
theorem answers_of_two_passes (rules : List Rule) (value : Text) :
    (ofRules rules).values = (producerTable rules).map Prod.fst ∧
      (ofRules rules).derivers value =
        ((producerTable rules).lookup value).getD NameSet.empty ∧
      (ofRules rules).spelling value =
        ((secondPass rules).spellings.lookup value).getD value := by
  rw [producerTable_eq, spellings_secondPass, List.map_map, lookup_map_entries, lookup_map_entries]
  exact ⟨rfl, rfl, rfl⟩

end Index

end GrammarTree
