import GrammarTree.Grammar.Basic
import GrammarTree.Proofs.Grammar.RuleText

/-!
# Written grammars

The rules of a grammar text are written back one on each line. This file proves that nothing is lost
on the way: the written text has the same rules in the same order, every one of its lines is a rule,
and writing it once more gives the same text.

A written rule is one row with a separator. So every row of the written text starts a block and no
block goes on over the next row, and the blocks are the rows. That a rule has no line feed comes
from where it was read: a block is made of rows, and a rule has no character that its block does not
have.

What is here:

* `Grammar.blocks_toText`: each line of a written grammar is a block of its own;
* `Grammar.read_toText`, for all lists of writable rules, and `Grammar.writable_of_mem_rules`: the
  rules of a grammar text are writable;
* `Grammar.read_toText_rules`, both together for every grammar text.
-/

set_option autoImplicit false

namespace GrammarTree

namespace Grammar

/-! ## Rows and blocks -/

theorem newline_notMem_of_mem_rows {t row : Text} (h : row ∈ t.rows) : '\n' ∉ row := by
  rw [Text.rows] at h
  induction t generalizing row with
  | nil =>
    rw [List.splitOn_nil, List.mem_singleton] at h
    rw [h]
    exact List.not_mem_nil
  | cons c t ih =>
    rw [List.splitOn_cons_eq_if_modifyHead] at h
    split at h
    · rcases List.mem_cons.1 h with rfl | h
      · exact List.not_mem_nil
      · exact ih h
    · rename_i hc
      cases hrows : t.splitOn '\n' with
      | nil => exact absurd hrows (List.splitOn_ne_nil _ _)
      | cons first rows =>
        rw [hrows] at h ih
        rcases List.mem_cons.1 h with rfl | h
        · rw [List.mem_cons, not_or]
          exact ⟨fun heq => hc (by simp [← heq]), ih (List.mem_cons_self ..)⟩
        · exact ih (List.mem_cons_of_mem _ h)

theorem newline_notMem_of_mem_ofRows {line : Nat} {rows : List Text} {b : Block}
    (hrows : ∀ row ∈ rows, '\n' ∉ row) (h : b ∈ Block.ofRows line rows) : '\n' ∉ b.text := by
  induction rows generalizing line with
  | nil => cases h
  | cons row rows ih =>
    have hrest : ∀ row ∈ rows, '\n' ∉ row := fun row' hrow =>
      hrows row' (List.mem_cons_of_mem _ hrow)
    rw [Block.ofRows] at h
    split at h
    · rcases List.mem_cons.1 h with rfl | h
      · rw [List.mem_append, not_or, List.mem_flatten]
        refine ⟨hrows row (List.mem_cons_self ..), ?_⟩
        rintro ⟨row', hrow, hmem⟩
        exact hrest row' ((List.takeWhile_sublist _).subset hrow) hmem
      · exact ih hrest h
    · exact ih hrest h

/-- The blocks of rows that are all written rules. -/
theorem ofRows_map_toText (line : Nat) (rules : List Rule) :
    Block.ofRows line (rules.map Rule.toText) =
      (rules.zipIdx line).map fun item => ⟨item.2, item.1.toText⟩ := by
  induction rules generalizing line with
  | nil => rfl
  | cons r rules ih =>
    have hnext : (rules.map Rule.toText).takeWhile Block.continues = [] := by
      cases rules with
      | nil => rfl
      | cons r' rules =>
        rw [List.map_cons, List.takeWhile_cons_of_neg]
        simp [Block.continues, r'.hasSeparator_toText]
    rw [List.map_cons, Block.ofRows, if_pos r.hasSeparator_toText, hnext, List.flatten_nil,
      List.append_nil, ih, List.zipIdx_cons, List.map_cons]

variable {rules : List Rule}

/-- Each line of a written grammar is a block of its own. -/
theorem blocks_toText (h : ∀ r ∈ rules, r.Writable) :
    blocks (toText rules) = (rules.zipIdx 1).map fun item => ⟨item.2, item.1.toText⟩ := by
  by_cases hnil : rules = []
  · subst hnil
    rfl
  · have hrows : (toText rules).rows = rules.map Rule.toText := by
      refine List.splitOn_intercalate '\n' (fun row hrow => ?_) (by simpa using hnil)
      obtain ⟨r, hr, rfl⟩ := List.mem_map.1 hrow
      exact (h r hr).newline_notMem_toText
    rw [blocks, hrows, ofRows_map_toText]

/-! ## Reading what was written

The rules come back with other lines, the numbers of the rows that they were written on. Everything
else of a rule is the same. -/

/-- A written grammar reads back rule by rule, each on its own line. -/
theorem read_toText (h : ∀ r ∈ rules, r.Writable) :
    read (toText rules) =
      (rules.zipIdx 1).map fun item => some { item.1 with line := some item.2 } := by
  rw [read, blocks_toText h, List.map_map]
  refine List.map_congr_left fun item hitem => ?_
  have hitem : item.1 ∈ rules := List.fst_mem_of_mem_zipIdx hitem
  simp only [Function.comp_apply, Block.rule?, Rule.read?]
  rw [(h _ hitem).restorable.read_toText]
  rfl

theorem valid_read_toText (h : ∀ r ∈ rules, r.Writable) :
    valid (read (toText rules)) =
      (rules.zipIdx 1).map fun item => { item.1 with line := some (item.2 : Int) } := by
  rw [valid, read_toText h, List.filterMap_map, ← List.filterMap_eq_map]
  rfl

/-- The rules of a grammar text can be written: each of them was read from a block, which has no
line feed. -/
theorem writable_of_mem_rules {t : Text} {r : Rule} (h : r ∈ Grammar.rules t) : r.Writable := by
  obtain ⟨rule, hrule, hsome⟩ := List.mem_filterMap.1 h
  obtain rfl : rule = some r := hsome
  obtain ⟨b, hb, hread⟩ := List.mem_map.1 hrule
  rw [Block.rule?, Rule.read?] at hread
  cases hresult : Rule.read b.text (some b.line) with
  | error fault =>
    rw [hresult] at hread
    cases hread
  | ok r' =>
    rw [hresult] at hread
    cases hread
    exact Rule.writable_of_read
      (newline_notMem_of_mem_ofRows (fun _ => newline_notMem_of_mem_rows) hb) hresult

/-- **Writing a grammar and reading it again loses nothing.** The rules keep their names, their
alternatives and their order; each line of the written text is a rule, and the text is a fixed point
of reading and writing. -/
theorem read_toText_rules (t : Text) :
    let again := read (toText (Grammar.rules t))
    (valid again).map (fun r => (r.name, r.alternatives)) =
        (Grammar.rules t).map (fun r => (r.name, r.alternatives)) ∧
      none ∉ again ∧
      (∀ (n : Nat) (r : Rule), again[n]? = some (some r) → r.line = some (n + 1 : Int)) ∧
      toText (valid again) = toText (Grammar.rules t) := by
  intro again
  have hwritable : ∀ r ∈ Grammar.rules t, r.Writable := fun _ => writable_of_mem_rules
  have hread : again = _ := read_toText hwritable
  have hvalid : valid again = _ := valid_read_toText hwritable
  -- What is read off a rule without its line is read off the rules one by one.
  have hkeeps : ∀ {α : Type} (f : Rule → α), (∀ r line, f { r with line := line } = f r) →
      (valid again).map f = (Grammar.rules t).map f := by
    intro α f hf
    rw [hvalid, List.map_map]
    calc ((Grammar.rules t).zipIdx 1).map _
        = (((Grammar.rules t).zipIdx 1).map Prod.fst).map f := by
          rw [List.map_map]
          exact List.map_congr_left fun item _ => hf item.1 _
      _ = (Grammar.rules t).map f := by rw [List.zipIdx_map_fst]
  refine ⟨hkeeps _ fun _ _ => rfl, ?_, fun n r hn => ?_, ?_⟩
  · rw [hread, List.mem_map]
    rintro ⟨item, -, hitem⟩
    cases hitem
  · rw [hread, List.getElem?_map, List.getElem?_zipIdx] at hn
    cases hrule : (Grammar.rules t)[n]? with
    | none => simp [hrule] at hn
    | some rule =>
      simp only [hrule, Option.map_some, Option.some.injEq] at hn
      rw [← hn]
      simp [Int.add_comm]
  · rw [toText, hkeeps _ fun _ _ => rfl, ← toText]

/-- Pipes that do not split stay, an empty alternative too, and a note between rules is dropped. -/
example : toText (Grammar.rules "<a> ::= x \\| y || z |  | w |\n\nnote\n<b|c> ::= <a>".toList) =
    "<a> ::= x \\| y \\|\\| z |  | w\n<b|c> ::= <a>".toList := by
  decide +kernel

end Grammar

end GrammarTree
