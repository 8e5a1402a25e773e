import GrammarTree.Text.Basic

/-!
# Sets of names

A `NameSet` is a finite set of texts, kept as its strictly ascending list. Equal sets are equal
values, and the list is the order in which the set is shown.

The order is part of the type, so that no set can be built that is out of order or holds a name
twice, and nothing has to be proved about the sets in an index beyond what they hold.

The order is the code point order of `Text.before`. Since it is irreflexive and transitive, strictly
ascending implies that no name is repeated.

What is here:

* `NameSet.insert`, `NameSet.union` and `NameSet.filter`;
* `NameSet.mem_insert`, `NameSet.mem_union` and `NameSet.mem_filter`, which say what they hold;
* `NameSet.eq_of_mem_iff`, equality of two sets by their names, and `NameSet.nodup_toList`.
-/

set_option autoImplicit false

namespace GrammarTree

/-- A finite set of texts. -/
structure NameSet where
  /-- The names in ascending order. -/
  toList : List Text
  /-- No name is repeated and none is out of order. -/
  ascending : toList.Pairwise fun s t => Text.before s t = true
  deriving DecidableEq

namespace NameSet

instance : Membership Text NameSet := ⟨fun names name => name ∈ names.toList⟩

instance (name : Text) (names : NameSet) : Decidable (name ∈ names) :=
  inferInstanceAs (Decidable (name ∈ names.toList))

theorem mem_toList {name : Text} {names : NameSet} : name ∈ names.toList ↔ name ∈ names := Iff.rfl

/-- The set without names. -/
def empty : NameSet := ⟨[], List.Pairwise.nil⟩

/-! ## Insertion -/

/-- Inserts a name into an ascending list, unless the name is there. -/
def insertSorted (name : Text) : List Text → List Text
  | [] => [name]
  | n :: names =>
    if Text.before name n then name :: n :: names
    else if name = n then n :: names
    else n :: insertSorted name names

theorem mem_insertSorted {x name : Text} {names : List Text} :
    x ∈ insertSorted name names ↔ x = name ∨ x ∈ names := by
  induction names with
  | nil => simp [insertSorted]
  | cons n names ih =>
    rw [insertSorted]
    split
    · simp
    · split
      · rename_i h
        subst h
        simp
      · simp [ih, or_left_comm]

theorem insertSorted_ascending (name : Text) {names : List Text}
    (h : names.Pairwise fun s t => Text.before s t = true) :
    (insertSorted name names).Pairwise fun s t => Text.before s t = true := by
  induction names with
  | nil => simp [insertSorted]
  | cons n names ih =>
    obtain ⟨hn, hnames⟩ := List.pairwise_cons.1 h
    rw [insertSorted]
    split
    · rename_i hbefore
      refine List.pairwise_cons.2 ⟨fun x hx => ?_, h⟩
      rcases List.mem_cons.1 hx with rfl | hx
      · exact hbefore
      · exact Text.before_trans hbefore (hn x hx)
    · split
      · exact h
      · rename_i hbefore hne
        refine List.pairwise_cons.2 ⟨fun x hx => ?_, ih hnames⟩
        rcases mem_insertSorted.1 hx with rfl | hx
        · rcases Text.before_total x n with hlt | heq | hgt
          · exact absurd hlt hbefore
          · exact absurd heq hne
          · exact hgt
        · exact hn x hx

/-- The set with one more name. -/
def insert (name : Text) (names : NameSet) : NameSet :=
  ⟨insertSorted name names.toList, insertSorted_ascending name names.ascending⟩

theorem mem_insert {x name : Text} {names : NameSet} :
    x ∈ names.insert name ↔ x = name ∨ x ∈ names :=
  mem_insertSorted

/-! ## Union and selection -/

/-- The names of both sets. -/
def union (left right : NameSet) : NameSet := left.toList.foldr insert right

theorem mem_union {x : Text} {left right : NameSet} :
    x ∈ left.union right ↔ x ∈ left ∨ x ∈ right := by
  have key : ∀ names : List Text, x ∈ names.foldr insert right ↔ x ∈ names ∨ x ∈ right := by
    intro names
    induction names with
    | nil => simp
    | cons n names ih => simp [mem_insert, ih, or_assoc]
  exact key left.toList

/-- The names that pass a test. -/
def filter (keep : Text → Bool) (names : NameSet) : NameSet :=
  ⟨names.toList.filter keep, names.ascending.sublist List.filter_sublist⟩

theorem mem_filter {x : Text} {keep : Text → Bool} {names : NameSet} :
    x ∈ names.filter keep ↔ x ∈ names ∧ keep x = true :=
  List.mem_filter

/-! ## Extensionality

Two ascending lists with the same names have the same first name: each of the two is a name of the
other list, and comes before or is its first. -/

theorem ascending_eq_of_mem {xs ys : List Text}
    (hxs : xs.Pairwise fun s t => Text.before s t = true)
    (hys : ys.Pairwise fun s t => Text.before s t = true) (h : ∀ name, name ∈ xs ↔ name ∈ ys) :
    xs = ys := by
  induction xs generalizing ys with
  | nil =>
    cases ys with
    | nil => rfl
    | cons y ys => exact absurd ((h y).2 (List.mem_cons_self ..)) List.not_mem_nil
  | cons x xs ih =>
    cases ys with
    | nil => exact absurd ((h x).1 (List.mem_cons_self ..)) List.not_mem_nil
    | cons y ys =>
      obtain ⟨hx, hxs'⟩ := List.pairwise_cons.1 hxs
      obtain ⟨hy, hys'⟩ := List.pairwise_cons.1 hys
      have hxy : x = y := by
        rcases List.mem_cons.1 ((h x).1 (List.mem_cons_self ..)) with hmem | hmem
        · exact hmem
        rcases List.mem_cons.1 ((h y).2 (List.mem_cons_self ..)) with hmem' | hmem'
        · exact hmem'.symm
        have hcycle := Text.before_trans (hx y hmem') (hy x hmem)
        rw [Text.before_irrefl] at hcycle
        exact absurd hcycle Bool.false_ne_true
      subst hxy
      have hne : ∀ {name : Text} {names : List Text},
          (∀ n ∈ names, Text.before x n = true) → name ∈ names → name ≠ x := by
        rintro name names hbefore hname rfl
        have hself := hbefore name hname
        rw [Text.before_irrefl] at hself
        exact absurd hself Bool.false_ne_true
      refine congrArg (x :: ·) (ih hxs' hys' fun name => ⟨fun hname => ?_, fun hname => ?_⟩)
      · exact (List.mem_cons.1 ((h name).1 (List.mem_cons_of_mem _ hname))).resolve_left
          (hne hx hname)
      · exact (List.mem_cons.1 ((h name).2 (List.mem_cons_of_mem _ hname))).resolve_left
          (hne hy hname)

/-- Two sets with the same names are equal. -/
theorem eq_of_mem_iff {left right : NameSet} (h : ∀ name, name ∈ left ↔ name ∈ right) :
    left = right := by
  have hlists := ascending_eq_of_mem left.ascending right.ascending h
  cases left
  cases right
  cases hlists
  rfl

/-- No name is listed twice. -/
theorem nodup_toList (names : NameSet) : names.toList.Nodup :=
  names.ascending.imp fun hbefore heq => by
    rw [heq, Text.before_irrefl] at hbefore
    exact Bool.false_ne_true hbefore

end NameSet

end GrammarTree
