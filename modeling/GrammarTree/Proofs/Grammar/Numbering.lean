import GrammarTree.Proofs.Derivation.Edits
import GrammarTree.Proofs.Grammar.RuleText
import GrammarTree.Proofs.Text.Numeral
import GrammarTree.Session.Basic
import Mathlib.Data.List.Pairwise

/-!
# Rule numbers

The rules of a grammar text are numbered in three places: in the margin beside the text, in the
look-up of a rule by its number, and in the edit that creates a root. Each place counts for itself.
This file proves that they agree for every text, although malformed blocks stand between the rules
and have no number.

The number of a rule is said once, by its block: it is the place of the block among the blocks that
are rules. Each of the three is then compared with this. The look-up counts in the list of rules.
The margin counts the lines where rules start, and puts each number on the row of that line by
writing line feeds up to it.

What is here:

* `Grammar.IsNumbered`: the rule with a number, and the block that it was read from;
* `Grammar.getElem?_marginRows`, the margin row by row;
* `Grammar.numbering_agrees`: the margin, the look-up and the new root follow `IsNumbered`.
-/

set_option autoImplicit false

namespace GrammarTree

/-! ## Blocks and the rows they start at

The lines of the blocks ascend, and each is the line of a row with a separator. Two rules never
start on the same line, which is what gives each number a row of its own. -/

namespace Block

theorem le_line_of_mem_ofRows {line : Nat} {rows : List Text} {b : Block}
    (h : b ∈ ofRows line rows) : line ≤ b.line := by
  induction rows generalizing line with
  | nil => cases h
  | cons row rows ih =>
    rw [ofRows] at h
    split at h
    · rcases List.mem_cons.1 h with rfl | h
      · exact Nat.le_refl line
      · exact Nat.le_of_succ_le (ih h)
    · exact Nat.le_of_succ_le (ih h)

theorem pairwise_line_ofRows (line : Nat) (rows : List Text) :
    (ofRows line rows).Pairwise fun b b' => b.line < b'.line := by
  induction rows generalizing line with
  | nil => exact .nil
  | cons row rows ih =>
    rw [ofRows]
    split
    · exact List.pairwise_cons.2 ⟨fun _ hb => le_line_of_mem_ofRows hb, ih (line + 1)⟩
    · exact ih (line + 1)

/-- A block starts at a row with a separator, and its text starts with this row. -/
theorem exists_row_of_mem_ofRows {line : Nat} {rows : List Text} {b : Block}
    (h : b ∈ ofRows line rows) :
    ∃ row, rows[b.line - line]? = some row ∧ hasSeparator row = true ∧ row <+: b.text := by
  induction rows generalizing line with
  | nil => cases h
  | cons row rows ih =>
    have hlater : b ∈ ofRows (line + 1) rows →
        ∃ row', (row :: rows)[b.line - line]? = some row' ∧ hasSeparator row' = true ∧
          row' <+: b.text := by
      intro hb
      obtain ⟨row', hrow', hrest⟩ := ih hb
      have hline : b.line - line = b.line - (line + 1) + 1 := by
        have := le_line_of_mem_ofRows hb
        omega
      exact ⟨row', by rwa [hline, List.getElem?_cons_succ], hrest⟩
    rw [ofRows] at h
    split at h
    · rename_i hrow
      rcases List.mem_cons.1 h with rfl | h
      · exact ⟨row, by rw [Nat.sub_self, List.getElem?_cons_zero], hrow, List.prefix_append _ _⟩
      · exact hlater h
    · exact hlater h

/-- Every block starts at a row of its own. -/
theorem length_ofRows_le (line : Nat) (rows : List Text) :
    (ofRows line rows).length ≤ rows.length := by
  induction rows generalizing line with
  | nil => exact Nat.le_refl 0
  | cons row rows ih =>
    rw [ofRows]
    split
    · exact Nat.succ_le_succ (ih (line + 1))
    · exact Nat.le_succ_of_le (ih (line + 1))

end Block

namespace Grammar

/-! ## Numbered rules -/

theorem length_rules_le (t : Text) : (rules t).length ≤ t.rows.length := by
  have hvalid : (rules t).length ≤ (read t).length := List.length_filterMap_le ..
  rw [read, List.length_map] at hvalid
  exact hvalid.trans (Block.length_ofRows_le 1 t.rows)

/-- The blocks of a grammar text that are rules, in order. -/
def ruleBlocks (t : Text) : List Block := (blocks t).filter fun b => b.rule?.isSome

/-- Whether `r` is the rule of a grammar text with a number, which is the number of its block `b`
among the blocks that are rules, counted from 1. -/
def IsNumbered (t : Text) (number : Int) (b : Block) (r : Rule) : Prop :=
  ∃ n : Nat, number = n + 1 ∧ (ruleBlocks t)[n]? = some b ∧ b.rule? = some r

theorem valid_map_rule? (bs : List Block) :
    (valid (bs.map Block.rule?)).map some =
      (bs.filter fun b => b.rule?.isSome).map Block.rule? := by
  induction bs with
  | nil => rfl
  | cons b bs ih =>
    rw [valid] at ih ⊢
    cases hrule : b.rule? with
    | none => simpa [hrule] using ih
    | some r => simpa [hrule] using ih

theorem map_some_rules (t : Text) : (rules t).map some = (ruleBlocks t).map Block.rule? :=
  valid_map_rule? (blocks t)

theorem line_of_rule? {b : Block} {r : Rule} (h : b.rule? = some r) :
    r.line = some (b.line : Int) := by
  rw [Block.rule?, Rule.read?] at h
  cases hresult : Rule.read b.text (some b.line) with
  | error fault =>
    rw [hresult] at h
    cases h
  | ok rule =>
    rw [hresult] at h
    cases h
    obtain ⟨_, _, _, _, _, hline⟩ := Rule.read_eq_ok hresult
    exact hline

theorem startLines_rules (t : Text) :
    startLines (rules t) = (ruleBlocks t).map fun b => (b.line : Int) := by
  have hblocks : startLines (rules t) =
      ((rules t).map some).filterMap (·.bind Rule.line) := by
    rw [List.filterMap_map]
    rfl
  rw [hblocks, map_some_rules, List.filterMap_map, ← List.filterMap_eq_map']
  refine List.filterMap_congr fun b hb => ?_
  obtain ⟨r, hr⟩ := Option.isSome_iff_exists.1 (List.mem_filter.1 hb).2
  rw [Function.comp_apply, hr, Option.bind_some, line_of_rule? hr]

theorem pairwise_startLines (t : Text) : (startLines (rules t)).Pairwise (· < ·) := by
  rw [startLines_rules, List.pairwise_map]
  refine ((Block.pairwise_line_ofRows 1 t.rows).sublist List.filter_sublist).imp ?_
  exact fun h => Int.ofNat_lt.2 h

theorem getElem?_startLines {t : Text} {n : Nat} {line : Int} :
    (startLines (rules t))[n]? = some line ↔
      ∃ b r, IsNumbered t (n + 1) b r ∧ (b.line : Int) = line := by
  rw [startLines_rules, List.getElem?_map, Option.map_eq_some_iff]
  constructor
  · rintro ⟨b, hb, hline⟩
    obtain ⟨r, hr⟩ :=
      Option.isSome_iff_exists.1 (List.mem_filter.1 (List.mem_of_getElem? hb)).2
    exact ⟨b, r, ⟨n, rfl, hb, hr⟩, hline⟩
  · rintro ⟨b, r, ⟨m, hm, hb, -⟩, hline⟩
    obtain rfl : m = n := by omega
    exact ⟨b, hb, hline⟩

theorem ruleNumbered?_eq_some {t : Text} {number : Int} {r : Rule} :
    ruleNumbered? (rules t) number = some r ↔ ∃ b, IsNumbered t number b r := by
  have hrules : ∀ n : Nat, (rules t)[n]? = some r ↔
      ∃ b, (ruleBlocks t)[n]? = some b ∧ b.rule? = some r := by
    intro n
    have hn := congrArg (·[n]?) (map_some_rules t)
    simp only [List.getElem?_map] at hn
    rw [← Option.map_eq_some_iff, ← hn]
    simp
  rw [ruleNumbered?]
  split
  · rename_i hlow
    refine iff_of_false nofun ?_
    rintro ⟨b, n, rfl, -, -⟩
    omega
  · rename_i hlow
    rw [hrules]
    constructor
    · rintro ⟨b, hb, hr⟩
      exact ⟨b, (number - 1).toNat, by omega, hb, hr⟩
    · rintro ⟨b, n, rfl, hb, hr⟩
      have hn : ((n : Int) + 1 - 1).toNat = n := by omega
      exact ⟨b, by rwa [hn], hr⟩

theorem ruleNumbered?_eq_none {rules : List Rule} {number : Int} :
    ruleNumbered? rules number = none ↔ number < 1 ∨ (rules.length : Int) < number := by
  rw [ruleNumbered?]
  split
  · exact iff_of_true rfl (Or.inl ‹_›)
  · rw [List.getElem?_eq_none_iff]
    omega

/-- A number that a rule has is at most the number of rows. -/
theorem le_length_rows_of_ruleNumbered? {t : Text} {number : Nat} {r : Rule}
    (h : ruleNumbered? (rules t) number = some r) : number ≤ t.rows.length := by
  by_contra hlong
  have hnone : ruleNumbered? (rules t) number = none := by
    have hrules := length_rules_le t
    rw [ruleNumbered?_eq_none]
    omega
  rw [h] at hnone
  cases hnone

end Grammar

/-! ## The margin row by row

The induction is over the lines that are left, with the number of line feeds written so far. A
number is put on its row by the line feeds in front of it, and the row is not closed: the next
number brings its own line feeds, or the margin ends. -/

namespace Text

theorem rows_newline_cons (t : Text) : rows ('\n' :: t) = [] :: rows t := by
  rw [rows, List.splitOn_cons_eq_if_modifyHead, if_pos (beq_self_eq_true _)]
  rfl

theorem rows_replicate_append (k : Nat) (t : Text) :
    rows (List.replicate k '\n' ++ t) = List.replicate k [] ++ rows t := by
  induction k with
  | zero => rfl
  | succ k ih =>
    rw [List.replicate_succ, List.cons_append, rows_newline_cons, ih, List.replicate_succ,
      List.cons_append]

end Text

namespace Grammar

/-- A number in the margin is a row of its own: the line feed behind it belongs to the next
number, which stands on a later line. -/
theorem rows_marginFrom_cons {count : Nat} {filled line : Int} {lines : List Int}
    (hlines : ∀ next ∈ lines, line < next) :
    (marginFrom count filled (line :: lines)).rows =
      List.replicate (line - 1 - filled).toNat [] ++ Text.ofNat count ::
        match lines with
        | [] => []
        | next :: lines => (marginFrom (count + 1) line (next :: lines)).rows := by
  rw [marginFrom, List.append_assoc, Text.rows_replicate_append]
  refine congrArg _ ?_
  cases lines with
  | nil =>
    rw [marginFrom, List.append_nil]
    exact List.splitOn_eq_singleton (Text.newline_notMem_ofNat count)
  | cons next lines =>
    have hgap : (next - 1 - (line - 1)).toNat = (next - 1 - line).toNat + 1 := by
      have := hlines next (List.mem_cons_self ..)
      omega
    have hfeed : marginFrom (count + 1) (line - 1) (next :: lines) =
        '\n' :: marginFrom (count + 1) line (next :: lines) := by
      rw [marginFrom, marginFrom, hgap, List.replicate_succ]
      rfl
    rw [hfeed]
    exact List.splitOn_append_cons_self_of_not_mem (Text.newline_notMem_ofNat count) _

variable {lines : List Int}

/-- Every number stands on its line. -/
theorem getElem?_rows_marginFrom {count : Nat} {filled : Int} (hlines : lines.Pairwise (· < ·))
    (hfilled : ∀ line ∈ lines, filled < line) {n : Nat} {line : Int} (h : lines[n]? = some line) :
    (marginFrom count filled lines).rows[(line - 1 - filled).toNat]? =
      some (Text.ofNat (count + n)) := by
  -- By induction on the lines. Behind the first number, the margin goes on as a margin that starts
  -- at the line below it, with the next number.
  induction lines generalizing count filled n with
  | nil => simp at h
  | cons first lines ih =>
    obtain ⟨hfirst, hrest⟩ := List.pairwise_cons.1 hlines
    have hgap := hfilled first (List.mem_cons_self ..)
    rw [rows_marginFrom_cons hfirst]
    cases n with
    | zero =>
      obtain rfl : first = line := by simpa using h
      rw [List.getElem?_append_right (by simp), List.length_replicate, Nat.sub_self]
      rfl
    | succ n =>
      rw [List.getElem?_cons_succ] at h
      have hline := hfirst line (List.mem_of_getElem? h)
      cases lines with
      | nil => simp at h
      | cons next lines =>
        have hindex : (line - 1 - filled).toNat =
            (first - 1 - filled).toNat + ((line - 1 - first).toNat + 1) := by omega
        rw [List.getElem?_append_right (by simp; omega), List.length_replicate, hindex,
          Nat.add_sub_cancel_left, List.getElem?_cons_succ, ih hrest hfirst h, Nat.add_right_comm,
          Nat.add_assoc]

/-- Every other row is empty. -/
theorem eq_of_getElem?_rows_marginFrom {count : Nat} {filled : Int}
    (hlines : lines.Pairwise (· < ·)) (hfilled : ∀ line ∈ lines, filled < line) {i : Nat}
    {row : Text} (h : (marginFrom count filled lines).rows[i]? = some row) :
    row = [] ∨ ∃ n : Nat, lines[n]? = some (filled + 1 + i) ∧ row = Text.ofNat (count + n) := by
  induction lines generalizing count filled i with
  | nil =>
    rw [marginFrom, Text.rows, List.splitOn_nil] at h
    exact Or.inl (List.mem_singleton.1 (List.mem_of_getElem? h))
  | cons first lines ih =>
    obtain ⟨hfirst, hrest⟩ := List.pairwise_cons.1 hlines
    have hgap := hfilled first (List.mem_cons_self ..)
    rw [rows_marginFrom_cons hfirst] at h
    rcases Nat.lt_or_ge i (first - 1 - filled).toNat with hi | hi
    · rw [List.getElem?_append_left (by simpa using hi)] at h
      exact Or.inl (List.eq_of_mem_replicate (List.mem_of_getElem? h))
    · rw [List.getElem?_append_right (by simpa using hi), List.length_replicate] at h
      cases hrow : i - (first - 1 - filled).toNat with
      | zero =>
        rw [hrow, List.getElem?_cons_zero, Option.some_inj] at h
        refine Or.inr ⟨0, ?_, h.symm⟩
        rw [List.getElem?_cons_zero, Option.some_inj]
        omega
      | succ j =>
        rw [hrow, List.getElem?_cons_succ] at h
        cases lines with
        | nil => simp at h
        | cons next lines =>
          refine (ih hrest hfirst h).imp_right ?_
          rintro ⟨n, hn, rfl⟩
          refine ⟨n + 1, ?_, by rw [Nat.add_right_comm, Nat.add_assoc]⟩
          rw [List.getElem?_cons_succ, hn, Option.some_inj]
          omega

/-- The rows of the margin beside a grammar text. -/
def marginRows (t : Text) : List Text := (margin (startLines (rules t))).rows

theorem exists_row_of_isNumbered {t : Text} {number : Int} {b : Block} {r : Rule}
    (h : IsNumbered t number b r) :
    0 < b.line ∧ ∃ row, t.rows[b.line - 1]? = some row ∧ hasSeparator row = true ∧
      row <+: b.text := by
  obtain ⟨n, -, hb, -⟩ := h
  have hblock : b ∈ blocks t := List.mem_of_mem_filter (List.mem_of_getElem? hb)
  exact ⟨Block.le_line_of_mem_ofRows hblock, Block.exists_row_of_mem_ofRows hblock⟩

theorem pos_of_mem_startLines {t : Text} {line : Int} (h : line ∈ startLines (rules t)) :
    0 < line := by
  obtain ⟨n, hn⟩ := List.getElem?_of_mem h
  obtain ⟨b, r, hnumbered, rfl⟩ := getElem?_startLines.1 hn
  exact Int.ofNat_lt.2 (exists_row_of_isNumbered hnumbered).1

theorem getElem?_marginRows {t : Text} {n i : Nat} :
    (marginRows t)[i]? = some (Text.ofNat n) ↔ ∃ b r, IsNumbered t n b r ∧ b.line = i + 1 := by
  constructor
  · intro h
    rcases eq_of_getElem?_rows_marginFrom (pairwise_startLines t)
      (fun _ => pos_of_mem_startLines) h with hrow | ⟨m, hm, hrow⟩
    · exact absurd hrow (Text.ofNat_ne_nil _)
    · obtain ⟨b, r, hnumbered, hline⟩ := getElem?_startLines.1 hm
      have hn : (n : Int) = m + 1 := by
        have := Text.ofNat_injective hrow
        omega
      exact ⟨b, r, hn ▸ hnumbered, by omega⟩
  · rintro ⟨b, r, ⟨m, hn, hb, hr⟩, hline⟩
    have hstart : (startLines (rules t))[m]? = some (b.line : Int) :=
      getElem?_startLines.2 ⟨b, r, ⟨m, rfl, hb, hr⟩, rfl⟩
    have hrow : (marginRows t)[((b.line : Int) - 1 - 0).toNat]? = some (Text.ofNat (1 + m)) :=
      getElem?_rows_marginFrom (pairwise_startLines t) (fun _ => pos_of_mem_startLines) hstart
    have hindex : ((b.line : Int) - 1 - 0).toNat = i := by omega
    have hcount : 1 + m = n := by omega
    rwa [hindex, hcount] at hrow

theorem eq_nil_of_getElem?_marginRows {t : Text} {i : Nat} {row : Text}
    (h : (marginRows t)[i]? = some row)
    (hnone : ∀ number b r, IsNumbered t number b r → b.line ≠ i + 1) : row = [] := by
  rcases eq_of_getElem?_rows_marginFrom (pairwise_startLines t)
    (fun _ => pos_of_mem_startLines) h with hrow | ⟨m, hm, -⟩
  · exact hrow
  · obtain ⟨b, r, hnumbered, hline⟩ := getElem?_startLines.1 hm
    exact absurd (by omega) (hnone _ b r hnumbered)

/-! ## Agreement -/

/-- **The numbers in the margin are the numbers of the rules.** A number stands beside the row where
its rule starts and nothing stands beside the other rows. The look-up of a number gives the rule of
this number, and a new root has its symbol; both fail for exactly the numbers that no rule has. -/
theorem numbering_agrees (t : Text) :
    (∀ number b r, IsNumbered t number b r → 0 < b.line ∧
      ∃ row, t.rows[b.line - 1]? = some row ∧ hasSeparator row = true ∧ row <+: b.text) ∧
    (startLines (rules t)).Pairwise (· < ·) ∧
    (∀ n i : Nat, (marginRows t)[i]? = some (Text.ofNat n) ↔
      ∃ b r, IsNumbered t n b r ∧ b.line = i + 1) ∧
    (∀ i row, (marginRows t)[i]? = some row →
      (∀ number b r, IsNumbered t number b r → b.line ≠ i + 1) → row = []) ∧
    (∀ number r, ruleNumbered? (rules t) number = some r ↔ ∃ b, IsNumbered t number b r) ∧
    (∀ number, ruleNumbered? (rules t) number = none ↔
      number < 1 ∨ ((rules t).length : Int) < number) ∧
    ∀ s : Session, s.grammar = t →
      (∀ number b r, IsNumbered t number b r → ∃ s',
        Session.newRoot number s = .ok s.derivation.next s' ∧
          s'.derivation = s.derivation.grow r.symbol) ∧
      ∀ number, Session.newRoot number s = .error (.noRuleNumbered number) s ↔
        number < 1 ∨ ((rules t).length : Int) < number := by
  refine ⟨fun _ _ _ => exists_row_of_isNumbered, pairwise_startLines t, fun _ _ =>
    getElem?_marginRows, fun _ _ => eq_nil_of_getElem?_marginRows, fun _ _ =>
    ruleNumbered?_eq_some, fun _ => ruleNumbered?_eq_none, ?_⟩
  rintro s rfl
  refine ⟨fun number b r hnumbered => ?_, fun number => ?_⟩
  · have hrule : ruleNumbered? s.rules number = some r := ruleNumbered?_eq_some.2 ⟨b, hnumbered⟩
    rw [Session.newRoot, Edit.get_bind_apply, hrule]
    exact ⟨_, rfl, rfl⟩
  · rw [← ruleNumbered?_eq_none, Session.newRoot, Edit.get_bind_apply]
    change _ ↔ ruleNumbered? s.rules number = none
    cases ruleNumbered? s.rules number with
    | none => exact iff_of_true rfl rfl
    | some r => exact iff_of_false nofun nofun

/-- A block without a name, between two rules. -/
def namelessText : Text := "<a> ::= x
::= y
<b> ::= z".toList

theorem numbering_agrees_of_namelessText :
    IsNumbered namelessText 2 ⟨3, "<b> ::= z".toList⟩
      ⟨some 3, ['b'], ['z'], [], List.cons_ne_nil _ _, List.cons_ne_nil _ _⟩ ∧
    (marginRows namelessText)[2]? = some "2".toList ∧
    ∃ s', Session.newRoot 2 (Session.start namelessText) = .ok 0 s' ∧
      s'.derivation = Derivation.empty.grow "<b>".toList := by
  have hnumbered : IsNumbered namelessText 2 ⟨3, "<b> ::= z".toList⟩
      ⟨some 3, ['b'], ['z'], [], List.cons_ne_nil _ _, List.cons_ne_nil _ _⟩ :=
    ⟨1, rfl, by decide, by decide⟩
  obtain ⟨-, -, hrows, -, -, -, hroot⟩ := numbering_agrees namelessText
  exact ⟨hnumbered, (hrows 2 2).2 ⟨_, _, hnumbered, rfl⟩,
    (hroot (Session.start namelessText) rfl).1 2 _ _ hnumbered⟩

end Grammar

end GrammarTree
