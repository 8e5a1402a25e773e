import GrammarTree.Grammar.Index
import Mathlib.Data.List.Basic

/-!
# What the reverse index knows

The reverse index is filled by recording the alternatives of the rules one after the other. This
file says what its look-ups answer in terms of the rules alone.

Each look-up is stated on the list that it searches, for any such list, and then there is one lemma
on what one step of the filling adds to its answer. The answer of the whole index is the induction
over the alternatives. The uses are kept in ascending order, and a use that is not there is put in
its place; that the order is kept is part of the induction, because the place is only right in a
table that is in order.

What is here:

* `Index.producersIn` and `Index.usersIn`, the look-ups on the tables of an index, and what one
  recorded alternative or one recorded use adds to them;
* `Index.mem_derivers_ofRules` and `Index.mem_users_ofRules`, the two look-ups of an index;
* `Index.mem_producers_ofRules`: the producers of a value are the rules with an alternative of this
  value, or with an alternative that has it as a token;
* `Index.exists_spelling_ofRules`: the spelling of a value is an alternative that was written.
-/

set_option autoImplicit false

namespace GrammarTree

namespace Index

@[simp] theorem not_mem_empty (name : Text) : name ∉ NameSet.empty := List.not_mem_nil

@[simp] theorem mem_insert_empty {name owner : Text} :
    name ∈ NameSet.empty.insert owner ↔ name = owner := by
  rw [NameSet.mem_insert, or_iff_left (not_mem_empty name)]

/-! ## Recorded alternatives -/

/-- The producers that are recorded for a value. -/
def producersIn (entries : List Entry) (value : Text) : NameSet :=
  ((entries.find? fun e => e.value = value).map Entry.producers).getD NameSet.empty

@[simp] theorem producersIn_nil (value : Text) : producersIn [] value = NameSet.empty := rfl

theorem producersIn_cons (e : Entry) (entries : List Entry) (value : Text) :
    producersIn (e :: entries) value =
      if e.value = value then e.producers else producersIn entries value := by
  rw [producersIn, List.find?_cons]
  by_cases h : e.value = value <;> simp [h, producersIn]

theorem mem_producersIn_record {owner alternative name value : Text} {entries : List Entry} :
    name ∈ producersIn (record owner alternative entries) value ↔
      (name = owner ∧ Alternative.value alternative = value) ∨
        name ∈ producersIn entries value := by
  induction entries with
  | nil =>
    rw [record, producersIn_cons, producersIn_nil]
    by_cases h : Alternative.value alternative = value
    · simp only [h, if_true, mem_insert_empty, and_true, not_mem_empty, or_false]
    · simp only [h, if_false, and_false, false_or]
  | cons e entries ih =>
    rw [record]
    split
    · rename_i hvalue
      rw [producersIn_cons, producersIn_cons, ← hvalue]
      by_cases h : e.value = value
      · simp only [h, if_true, NameSet.mem_insert, and_true]
      · simp only [h, if_false, and_false, false_or]
    · rename_i hvalue
      rw [producersIn_cons, producersIn_cons]
      by_cases h : e.value = value
      · have hne : Alternative.value alternative ≠ value := fun heq => hvalue (h.trans heq.symm)
        simp only [h, if_true, hne, and_false, false_or]
      · simp only [h, if_false, ih]

theorem mem_producersIn_foldl (name value : Text) (owned : List (Text × Text))
    (entries : List Entry) :
    name ∈ producersIn (owned.foldl (fun entries o => record o.1 o.2 entries) entries) value ↔
      (∃ o ∈ owned, name = o.1 ∧ Alternative.value o.2 = value) ∨
        name ∈ producersIn entries value := by
  induction owned generalizing entries with
  | nil => simp
  | cons o owned ih =>
    rw [List.foldl_cons, ih, mem_producersIn_record, List.exists_mem_cons_iff, or_left_comm,
      or_assoc]

/-! ## Recorded spellings -/

/-- An entry has the value and the spelling of an alternative that was recorded. -/
def IsSpelled (alternatives : List Text) (e : Entry) : Prop :=
  e.spelling ∈ alternatives ∧ Alternative.value e.spelling = e.value

theorem isSpelled_record {owner alternative : Text} {alternatives : List Text}
    {entries : List Entry} (ha : alternative ∈ alternatives)
    (h : ∀ e ∈ entries, IsSpelled alternatives e) :
    ∀ e ∈ record owner alternative entries, IsSpelled alternatives e := by
  induction entries with
  | nil =>
    intro e he
    rw [List.mem_singleton.1 he]
    exact ⟨ha, rfl⟩
  | cons first entries ih =>
    have hfirst := h first (List.mem_cons_self ..)
    have hentries := fun e he => h e (List.mem_cons_of_mem _ he)
    rw [record]
    split
    · exact List.forall_mem_cons.2 ⟨hfirst, hentries⟩
    · exact List.forall_mem_cons.2 ⟨hfirst, ih hentries⟩

theorem isSpelled_foldl {alternatives : List Text} (owned : List (Text × Text))
    {entries : List Entry} (howned : ∀ o ∈ owned, o.2 ∈ alternatives)
    (h : ∀ e ∈ entries, IsSpelled alternatives e) :
    ∀ e ∈ owned.foldl (fun entries o => record o.1 o.2 entries) entries,
      IsSpelled alternatives e := by
  induction owned generalizing entries with
  | nil => exact h
  | cons o owned ih =>
    rw [List.foldl_cons]
    obtain ⟨ho, howned⟩ := List.forall_mem_cons.1 howned
    exact ih howned (isSpelled_record ho h)

/-! ## Recorded uses

A use is put in front of the first one with a greater symbol. If a use for its symbol stood further
behind, it would not be found, and the table would have two; in an ascending table there is none. -/

/-- The users that are recorded for a non-terminal. -/
def usersIn (uses : List Use) (symbol : Text) : NameSet :=
  ((uses.find? fun u => u.symbol = symbol).map Use.users).getD NameSet.empty

/-- The order in which uses are kept. -/
def Ascending (uses : List Use) : Prop :=
  uses.Pairwise fun u w => Text.before u.symbol w.symbol = true

@[simp] theorem usersIn_nil (symbol : Text) : usersIn [] symbol = NameSet.empty := rfl

theorem usersIn_cons (u : Use) (uses : List Use) (symbol : Text) :
    usersIn (u :: uses) symbol = if u.symbol = symbol then u.users else usersIn uses symbol := by
  rw [usersIn, List.find?_cons]
  by_cases h : u.symbol = symbol <;> simp [h, usersIn]

theorem symbol_mem_recordUse {owner symbol : Text} {uses : List Use} {u : Use}
    (h : u ∈ recordUse owner symbol uses) :
    u.symbol = symbol ∨ ∃ w ∈ uses, u.symbol = w.symbol := by
  induction uses with
  | nil =>
    rw [recordUse, List.mem_singleton] at h
    exact Or.inl (by rw [h])
  | cons w uses ih =>
    rw [recordUse] at h
    split at h
    · rename_i hsymbol
      rcases List.mem_cons.1 h with rfl | h
      · exact Or.inl hsymbol
      · exact Or.inr ⟨u, List.mem_cons_of_mem _ h, rfl⟩
    · split at h
      · rcases List.mem_cons.1 h with rfl | h
        · exact Or.inl rfl
        · exact Or.inr ⟨u, h, rfl⟩
      · rcases List.mem_cons.1 h with rfl | h
        · exact Or.inr ⟨u, List.mem_cons_self .., rfl⟩
        · rcases ih h with h | ⟨w', hw', h⟩
          · exact Or.inl h
          · exact Or.inr ⟨w', List.mem_cons_of_mem _ hw', h⟩

theorem Ascending.recordUse {uses : List Use} (h : Ascending uses) (owner symbol : Text) :
    Ascending (recordUse owner symbol uses) := by
  induction uses with
  | nil => exact List.pairwise_singleton ..
  | cons u uses ih =>
    obtain ⟨hu, huses⟩ := List.pairwise_cons.1 h
    rw [Index.recordUse]
    split
    · exact List.pairwise_cons.2 ⟨hu, huses⟩
    · rename_i hne
      split
      · rename_i hbefore
        refine List.pairwise_cons.2 ⟨fun w hw => ?_, h⟩
        rcases List.mem_cons.1 hw with rfl | hw
        · exact hbefore
        · exact Text.before_trans hbefore (hu w hw)
      · rename_i hbefore
        refine List.pairwise_cons.2 ⟨fun w hw => ?_, ih huses⟩
        rcases symbol_mem_recordUse hw with heq | ⟨w', hw', heq⟩
        · rw [heq]
          rcases Text.before_total symbol u.symbol with hlt | heq | hgt
          · exact absurd hlt hbefore
          · exact absurd heq.symm hne
          · exact hgt
        · rw [heq]
          exact hu w' hw'

theorem usersIn_eq_empty {uses : List Use} {symbol : Text}
    (h : ∀ u ∈ uses, u.symbol ≠ symbol) : usersIn uses symbol = NameSet.empty := by
  have hnone : uses.find? (fun u => u.symbol = symbol) = none := by
    rw [List.find?_eq_none]
    simpa using h
  rw [usersIn, hnone]
  rfl

theorem mem_usersIn_recordUse {owner symbol name x : Text} {uses : List Use} (h : Ascending uses) :
    name ∈ usersIn (recordUse owner symbol uses) x ↔
      (name = owner ∧ symbol = x) ∨ name ∈ usersIn uses x := by
  induction uses with
  | nil =>
    rw [recordUse, usersIn_cons, usersIn_nil]
    by_cases hx : symbol = x
    · simp only [hx, if_true, mem_insert_empty, and_true, not_mem_empty, or_false]
    · simp only [hx, if_false, and_false, false_or]
  | cons u uses ih =>
    obtain ⟨hu, huses⟩ := List.pairwise_cons.1 h
    rw [recordUse]
    split
    · rename_i hsymbol
      rw [usersIn_cons, usersIn_cons, ← hsymbol]
      by_cases hx : u.symbol = x
      · simp only [hx, if_true, NameSet.mem_insert, and_true]
      · simp only [hx, if_false, and_false, false_or]
    · rename_i hsymbol
      split
      · rename_i hbefore
        rw [usersIn_cons]
        by_cases hx : symbol = x
        · -- The symbol comes before all recorded ones, so it is none of them.
          have hnone : usersIn (u :: uses) x = NameSet.empty := by
            refine usersIn_eq_empty fun w hw heq => ?_
            have hlt : Text.before symbol w.symbol = true := by
              rcases List.mem_cons.1 hw with rfl | hw
              · exact hbefore
              · exact Text.before_trans hbefore (hu w hw)
            rw [heq, hx, Text.before_irrefl] at hlt
            exact Bool.false_ne_true hlt
          simp only [hx, if_true, mem_insert_empty, and_true, hnone, not_mem_empty, or_false]
        · simp only [hx, if_false, and_false, false_or]
      · rw [usersIn_cons, usersIn_cons]
        by_cases hx : u.symbol = x
        · have hne : symbol ≠ x := fun heq => hsymbol (hx.trans heq.symm)
          simp only [hx, if_true, hne, and_false, false_or]
        · simp only [hx, if_false, ih huses]

/-- What the uses of one owner add. -/
theorem mem_usersIn_foldl_symbols {owner : Text} (name x : Text) (symbols : List Text)
    {uses : List Use} (h : Ascending uses) :
    Ascending (symbols.foldl (fun uses symbol => recordUse owner symbol uses) uses) ∧
      (name ∈ usersIn (symbols.foldl (fun uses symbol => recordUse owner symbol uses) uses) x ↔
        (name = owner ∧ x ∈ symbols) ∨ name ∈ usersIn uses x) := by
  induction symbols generalizing uses with
  | nil => simpa using h
  | cons symbol symbols ih =>
    obtain ⟨hascending, hmem⟩ := ih (h.recordUse owner symbol)
    refine ⟨hascending, ?_⟩
    rw [List.foldl_cons, hmem, mem_usersIn_recordUse h, List.mem_cons, and_or_left,
      @eq_comm _ x symbol, or_left_comm, or_assoc]

theorem mem_usersIn_foldl (name x : Text) (owned : List (Text × Text)) {uses : List Use}
    (h : Ascending uses) :
    name ∈ usersIn (owned.foldl (fun uses o => (nonterminals o.2).foldl
        (fun uses symbol => recordUse o.1 symbol uses) uses) uses) x ↔
      (∃ o ∈ owned, name = o.1 ∧ x ∈ nonterminals o.2) ∨ name ∈ usersIn uses x := by
  induction owned generalizing uses with
  | nil => simp
  | cons o owned ih =>
    obtain ⟨hascending, hmem⟩ := mem_usersIn_foldl_symbols name x (nonterminals o.2) h
    rw [List.foldl_cons, ih hascending, hmem, List.exists_mem_cons_iff, or_left_comm, or_assoc]

/-! ## The look-ups of an index -/

theorem mem_owned {rules : List Rule} {o : Text × Text} :
    o ∈ owned rules ↔ ∃ r ∈ rules, r.symbol = o.1 ∧ o.2 ∈ r.alternatives := by
  simp only [owned, List.mem_flatMap, List.mem_map]
  constructor
  · rintro ⟨r, hr, a, ha, rfl⟩
    exact ⟨r, hr, rfl, ha⟩
  · rintro ⟨r, hr, hsymbol, ha⟩
    exact ⟨r, hr, o.2, ha, by rw [hsymbol]⟩

theorem mem_derivers_ofRules {rules : List Rule} {name value : Text} :
    name ∈ (ofRules rules).derivers value ↔
      ∃ r ∈ rules, r.symbol = name ∧ ∃ a ∈ r.alternatives, Alternative.value a = value := by
  have hfold := mem_producersIn_foldl name value (owned rules) []
  rw [producersIn_nil, or_iff_left (not_mem_empty name)] at hfold
  refine hfold.trans ?_
  constructor
  · rintro ⟨⟨owner, a⟩, ho, rfl, hvalue⟩
    obtain ⟨r, hr, hsymbol, ha⟩ := mem_owned.1 ho
    exact ⟨r, hr, hsymbol, a, ha, hvalue⟩
  · rintro ⟨r, hr, hsymbol, a, ha, hvalue⟩
    exact ⟨(name, a), mem_owned.2 ⟨r, hr, hsymbol, ha⟩, rfl, hvalue⟩

theorem mem_users_ofRules {rules : List Rule} {name symbol : Text} :
    name ∈ (ofRules rules).users symbol ↔
      ∃ r ∈ rules, r.symbol = name ∧
        ∃ a ∈ r.alternatives, isPlaceholder symbol = true ∧ symbol ∈ Alternative.tokens a := by
  have hfold := mem_usersIn_foldl name symbol (owned rules) List.Pairwise.nil
  rw [usersIn_nil, or_iff_left (not_mem_empty name)] at hfold
  refine hfold.trans ?_
  simp only [nonterminals, List.mem_filter]
  constructor
  · rintro ⟨⟨owner, a⟩, ho, rfl, htoken, hplaceholder⟩
    obtain ⟨r, hr, hsymbol, ha⟩ := mem_owned.1 ho
    exact ⟨r, hr, hsymbol, a, ha, hplaceholder, htoken⟩
  · rintro ⟨r, hr, hsymbol, a, ha, hplaceholder, htoken⟩
    exact ⟨(name, a), mem_owned.2 ⟨r, hr, hsymbol, ha⟩, rfl, htoken, hplaceholder⟩

/-- The producers of a value are the rules with an alternative of this value and, for a
non-terminal, the rules with an alternative that has it as a token. -/
theorem mem_producers_ofRules {rules : List Rule} {name value : Text} :
    name ∈ (ofRules rules).producers value ↔
      ∃ r ∈ rules, r.symbol = name ∧ ∃ a ∈ r.alternatives, Alternative.value a = value ∨
        (isPlaceholder value = true ∧ value ∈ Alternative.tokens a) := by
  rw [producers]
  split
  · rename_i hplaceholder
    rw [NameSet.mem_union, mem_users_ofRules, mem_derivers_ofRules]
    constructor
    · rintro (⟨r, hr, hsymbol, a, ha, huse⟩ | ⟨r, hr, hsymbol, a, ha, hvalue⟩)
      · exact ⟨r, hr, hsymbol, a, ha, Or.inr huse⟩
      · exact ⟨r, hr, hsymbol, a, ha, Or.inl hvalue⟩
    · rintro ⟨r, hr, hsymbol, a, ha, hvalue | huse⟩
      · exact Or.inr ⟨r, hr, hsymbol, a, ha, hvalue⟩
      · exact Or.inl ⟨r, hr, hsymbol, a, ha, huse⟩
  · rename_i hplaceholder
    rw [mem_derivers_ofRules]
    simp only [hplaceholder, false_and, or_false, Bool.false_eq_true]

/-- Every producer is a rule of the grammar. -/
theorem mem_owners_of_mem_producers {rules : List Rule} {name value : Text}
    (h : name ∈ (ofRules rules).producers value) : name ∈ (ofRules rules).owners := by
  obtain ⟨r, hr, hsymbol, -⟩ := mem_producers_ofRules.1 h
  exact List.mem_map.2 ⟨r, hr, hsymbol⟩

/-- A value of the index is spelled as an alternative of some rule. -/
theorem exists_spelling_ofRules {rules : List Rule} {value : Text}
    (h : value ∈ (ofRules rules).values) :
    ∃ r ∈ rules, (ofRules rules).spelling value ∈ r.alternatives ∧
      Alternative.value ((ofRules rules).spelling value) = value := by
  obtain ⟨e, he⟩ : ∃ e, (ofRules rules).entries.find? (fun e => e.value = value) = some e := by
    obtain ⟨e, hmem, rfl⟩ := List.mem_map.1 h
    exact Option.isSome_iff_exists.1 (List.find?_isSome.2 ⟨e, hmem, decide_eq_true rfl⟩)
  obtain rfl : e.value = value := by simpa using List.find?_some he
  have hspelled := isSpelled_foldl (owned rules) (fun o ho => List.mem_map_of_mem ho)
    (fun e he => absurd he List.not_mem_nil) e (List.mem_of_find?_eq_some he)
  have hspelling : (ofRules rules).spelling e.value = e.spelling := by
    rw [spelling, he, Option.map_some, Option.getD_some]
  rw [hspelling]
  obtain ⟨o, ho, hwritten⟩ := List.mem_map.1 hspelled.1
  obtain ⟨r, hr, -, ha⟩ := mem_owned.1 ho
  exact ⟨r, hr, hwritten ▸ ha, hspelled.2⟩

end Index

end GrammarTree
