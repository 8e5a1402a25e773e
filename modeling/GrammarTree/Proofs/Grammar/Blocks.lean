import GrammarTree.Proofs.Grammar.Locality
import GrammarTree.Proofs.Grammar.Numbering

/-!
# Where blocks start and end

A block is defined by the rows that it takes. This file says which rows of a grammar text these are,
reads the blocks in one pass over the rows, and draws the conclusion for rules that are written over
several lines.

Three descriptions of the blocks are brought together. The definition looks ahead from each row with
a separator. The specification names the row where a block starts and the row where it stops, both
by their positions in the text, and joins what is between. The reading in one pass never looks
ahead: it keeps one open block and closes it when a row says so.

The definition is tied to the specification by going over the rows from the front, with the rows
that were passed as a list `before` whose length is the position. For the pass, each state stands
for the blocks that it comes to once the remaining rows are read, and a step does not change them.

What is here:

* `Block.RunsTo` and `Block.IsFrom`, the rows of the block that starts at a given row;
* `BlockScan`, the reading in one pass that keeps one open block, and `BlockScan.outcome`, what a
  state of this reading comes to;
* `Grammar.blocks_follow_separators`: there is one block for each row with a separator, the rows
  outside of the blocks do not matter, and a rule can be broken into lines behind its separator.
-/

set_option autoImplicit false

namespace GrammarTree

namespace Block

/-! ## The rows of a block -/

/-- A row that ends the block in front of it: a blank row, or one with a separator. -/
def Closes (row : Text) : Prop := row.isBlankOnly = true ∨ hasSeparator row = true

theorem continues_eq_false_iff {row : Text} : continues row = false ↔ Closes row := by
  rw [continues, Bool.and_eq_false_iff, Bool.not_eq_false', Bool.not_eq_false']
  rfl

theorem continues_iff {row : Text} : continues row = true ↔ ¬ Closes row := by
  rw [← continues_eq_false_iff, Bool.not_eq_false]

/-- Whether the block that starts at row `start` runs up to row `stop`, which is the first later row
that closes it, or the end of the text. Rows are counted from 0. -/
structure RunsTo (rows : List Text) (start stop : Nat) : Prop where
  /-- The row where the block starts is in the block. -/
  lt : start < stop
  /-- No row of the block behind its first one closes it. -/
  inside : ∀ k row, start < k → k < stop → rows[k]? = some row → ¬ Closes row
  /-- The block is closed by a row or by the end of the text. -/
  closed : stop = rows.length ∨ ∃ row, rows[stop]? = some row ∧ Closes row

/-- Whether `b` is the block that starts at row `start`: the number of this row, counted from 1, and
the rows up to the end of the block, joined. -/
structure IsFrom (rows : List Text) (start : Nat) (b : Block) : Prop where
  /-- The block has the number of its first row. -/
  line : b.line = start + 1
  /-- The text of the block is its rows, joined. -/
  text : ∃ stop, RunsTo rows start stop ∧ b.text = ((rows.take stop).drop start).flatten

/-- Whether row `k` is a row of a block. -/
def Covers (rows : List Text) (k : Nat) : Prop :=
  ∃ start ∈ rows.findIdxs hasSeparator, ∃ stop, RunsTo rows start stop ∧ start ≤ k ∧ k < stop

/-- A block runs over the rows that do not close it, up to the first one that does. -/
theorem runsTo_append {before pieces rest : List Text} {row : Text}
    (hpieces : ∀ piece ∈ pieces, ¬ Closes piece) (hrest : ∀ next ∈ rest.head?, Closes next) :
    RunsTo (before ++ row :: (pieces ++ rest)) before.length
      (before.length + 1 + pieces.length) := by
  have hbehind : ∀ k, (before ++ row :: (pieces ++ rest))[before.length + 1 + k]? =
      (pieces ++ rest)[k]? := by
    intro k
    rw [List.getElem?_append_right (by omega), Nat.add_assoc, Nat.add_sub_cancel_left,
      Nat.add_comm 1 k, List.getElem?_cons_succ]
  refine ⟨by omega, fun k piece hstart hstop hpiece => ?_, ?_⟩
  · obtain ⟨i, rfl⟩ := Nat.exists_eq_add_of_le (Nat.succ_le_of_lt hstart)
    rw [Nat.succ_eq_add_one, hbehind, List.getElem?_append_left (by omega)] at hpiece
    exact hpieces piece (List.mem_of_getElem? hpiece)
  · cases rest with
    | nil =>
      left
      simp only [List.append_nil, List.length_append, List.length_cons]
      omega
    | cons next rest =>
      refine .inr ⟨next, ?_, hrest next rfl⟩
      rw [hbehind, List.getElem?_append_right (Nat.le_refl _), Nat.sub_self,
        List.getElem?_cons_zero]

theorem runsTo_takeWhile (before : List Text) (row : Text) (rows : List Text) :
    RunsTo (before ++ row :: rows) before.length
      (before.length + 1 + (rows.takeWhile continues).length) := by
  have hruns : RunsTo
      (before ++ row :: (rows.takeWhile continues ++ rows.dropWhile continues)) before.length
      (before.length + 1 + (rows.takeWhile continues).length) := by
    refine runsTo_append (fun piece hpiece => ?_) fun next hnext => ?_
    · exact continues_iff.1 (List.mem_takeWhile_imp hpiece)
    · have hstop := List.head?_dropWhile_not continues rows
      rw [Option.mem_def.1 hnext] at hstop
      exact continues_eq_false_iff.1 (by simpa using hstop)
  rwa [List.takeWhile_append_dropWhile] at hruns

theorem isFrom_append (before : List Text) (row : Text) (rows : List Text) :
    IsFrom (before ++ row :: rows) before.length
      ⟨before.length + 1, row ++ (rows.takeWhile continues).flatten⟩ := by
  have htake : rows.take (rows.takeWhile continues).length = rows.takeWhile continues :=
    (List.prefix_iff_eq_take.1 (List.takeWhile_prefix _)).symm
  refine ⟨rfl, _, runsTo_takeWhile before row rows, ?_⟩
  rw [Nat.add_assoc, List.take_length_add_append, List.drop_left, Nat.add_comm 1,
    List.take_succ_cons, htake]
  rfl

/-- There is one block for each row with a separator. -/
theorem forall₂_isFrom_ofRows (before rows : List Text) :
    List.Forall₂ (IsFrom (before ++ rows)) (rows.findIdxs hasSeparator before.length)
      (ofRows (before.length + 1) rows) := by
  -- A block is described in the text as a whole, so the rows that are done stay in front.
  induction rows generalizing before with
  | nil => exact .nil
  | cons row rows ih =>
    have hrows : List.Forall₂ (IsFrom (before ++ row :: rows))
        (rows.findIdxs hasSeparator (before.length + 1))
        (ofRows (before.length + 1 + 1) rows) := by
      simpa only [List.append_assoc, List.singleton_append, List.length_append,
        List.length_singleton] using ih (before ++ [row])
    rw [List.findIdxs_cons, ofRows]
    split
    · exact .cons (isFrom_append before row rows) hrows
    · exact hrows

/-! ## Rows outside of the blocks

A row in front of the first block, or behind a blank row, may say anything but a separator. To say
that it does not matter, it is emptied; that keeps the numbers of the rows as they are. -/

theorem takeWhile_continues_set {rows : List Text} {k : Nat}
    (h : (rows.takeWhile continues).length ≤ k) :
    (rows.set k []).takeWhile continues = rows.takeWhile continues := by
  induction rows generalizing k with
  | nil => rfl
  | cons row rows ih =>
    cases k with
    | zero =>
      have hstop : continues [] = false := rfl
      rw [List.set_cons_zero, List.takeWhile_cons, hstop]
      exact (List.length_eq_zero_iff.1 (Nat.le_zero.1 h)).symm
    | succ k =>
      rw [List.set_cons_succ, List.takeWhile_cons, List.takeWhile_cons]
      split
      · rename_i hrow
        rw [List.takeWhile_cons_of_pos hrow, List.length_cons] at h
        rw [ih (Nat.le_of_succ_le_succ h)]
      · rfl

theorem covers_append {before rows : List Text} {row : Text} {k : Nat}
    (hrow : hasSeparator row = true) (hk : k ≤ (rows.takeWhile continues).length) :
    Covers (before ++ row :: rows) (before.length + k) := by
  refine ⟨before.length, ?_, _, runsTo_takeWhile before row rows, by omega, by omega⟩
  rw [List.findIdxs_append, Nat.zero_add, List.findIdxs_cons, if_pos hrow]
  exact List.mem_append_right _ (List.mem_cons_self ..)

/-- A row outside of the blocks can be emptied. -/
theorem ofRows_set_of_not_covers {before rows : List Text} {k line : Nat}
    (h : ¬ Covers (before ++ rows) (before.length + k)) :
    ofRows line (rows.set k []) = ofRows line rows := by
  induction rows generalizing before k line with
  | nil => rfl
  | cons row rows ih =>
    cases k with
    | zero =>
      have hrow : hasSeparator row = false := by
        rw [Bool.eq_false_iff]
        exact fun hrow => h (covers_append hrow (Nat.zero_le _))
      rw [List.set_cons_zero, ofRows, ofRows, hrow]
      rfl
    | succ k =>
      have hrows : ofRows (line + 1) (rows.set k []) = ofRows (line + 1) rows := by
        refine @ih (before ++ [row]) k (line + 1) ?_
        rwa [List.append_assoc, List.singleton_append, List.length_append, List.length_singleton,
          Nat.add_assoc, Nat.add_comm 1 k]
      rw [List.set_cons_succ, ofRows, ofRows, hrows]
      split
      · rename_i hrow
        have hlength : (rows.takeWhile continues).length ≤ k :=
          Nat.le_of_not_lt fun hlt => h (covers_append hrow hlt)
        rw [takeWhile_continues_set hlength]
      · rfl

end Block

/-! ## Blocks in one pass

The pass is a fold over the rows, and its state has the number of the next row, the closed blocks
and the open one. `outcome` gives the blocks that a state is on the way to, so that the fold needs
no other invariant. -/

/-- A state of the reading of rows in one pass. -/
structure BlockScan where
  /-- The number of the next row. -/
  next : Nat
  /-- The blocks that are closed, in order. -/
  closed : List Block
  /-- The block that the next row can belong to. -/
  opened : Option Block

namespace BlockScan

/-- The state in front of the first row. -/
def start : BlockScan := ⟨1, [], none⟩

/-- Closes the open block, if there is one. -/
def close (s : BlockScan) : BlockScan :=
  { s with closed := s.closed ++ s.opened.toList, opened := none }

/-- Reads one row: a blank row closes the open block, a row with a separator closes it and opens the
next one, and then the row is taken by the block that is open. -/
def step (s : BlockScan) (row : Text) : BlockScan :=
  let s := if row.isBlankOnly then s.close else s
  let s := if hasSeparator row then { s.close with opened := some ⟨s.next, []⟩ } else s
  { s with next := s.next + 1, opened := s.opened.map fun b => { b with text := b.text ++ row } }

/-- The blocks of rows, read in one pass, at the end of which the open block is closed. -/
def blocksOf (rows : List Text) : List Block := (rows.foldl step start).close.closed

/-- What a state comes to when `rows` are still to be read: the closed blocks, the open block with
the rows that it runs on over, and the blocks that start later. -/
def outcome (s : BlockScan) (rows : List Text) : List Block :=
  s.closed ++
    (s.opened.map fun b =>
      { b with text := b.text ++ (rows.takeWhile Block.continues).flatten }).toList ++
    Block.ofRows s.next rows

theorem step_of_hasSeparator (s : BlockScan) {row : Text} (h : hasSeparator row = true) :
    s.step row = ⟨s.next + 1, s.closed ++ s.opened.toList, some ⟨s.next, row⟩⟩ := by
  have hblank : row.isBlankOnly = false := by
    rw [Bool.eq_false_iff]
    exact fun hblank => by simp [Block.hasSeparator_of_isBlankOnly hblank] at h
  simp [step, close, h, hblank]

theorem step_of_isBlankOnly (s : BlockScan) {row : Text} (h : row.isBlankOnly = true) :
    s.step row = ⟨s.next + 1, s.closed ++ s.opened.toList, none⟩ := by
  simp [step, close, h, Block.hasSeparator_of_isBlankOnly h]

theorem step_of_not_closes (s : BlockScan) {row : Text} (h : ¬ Block.Closes row) :
    s.step row =
      ⟨s.next + 1, s.closed, s.opened.map fun b => { b with text := b.text ++ row }⟩ := by
  obtain ⟨hblank, hseparator⟩ := not_or.1 h
  simp [step, hblank, hseparator]

/-- A step takes one row and does not change what the state comes to. -/
theorem outcome_step (s : BlockScan) (row : Text) (rows : List Text) :
    (s.step row).outcome rows = s.outcome (row :: rows) := by
  -- The open block ends in the first two cases, which is where the rows it runs on over end.
  by_cases hseparator : hasSeparator row = true
  · rw [step_of_hasSeparator s hseparator]
    have hcontinues := Block.continues_of_hasSeparator hseparator
    simp [outcome, Block.ofRows, hseparator, hcontinues]
  by_cases hblank : row.isBlankOnly = true
  · rw [step_of_isBlankOnly s hblank]
    have hcontinues := Block.continues_of_isBlankOnly hblank
    simp [outcome, Block.ofRows, hseparator, hcontinues]
  · have hruns : ¬ Block.Closes row := not_or.2 ⟨hblank, hseparator⟩
    have hcontinues := Block.continues_iff.2 hruns
    rw [step_of_not_closes s hruns]
    simp [outcome, Block.ofRows, hseparator, hcontinues, Function.comp_def]

/-- Nor does a run, at the end of which nothing is left to be read. -/
theorem outcome_foldl (s : BlockScan) (rows : List Text) :
    (rows.foldl step s).outcome [] = s.outcome rows := by
  induction rows generalizing s with
  | nil => rfl
  | cons row rows ih => rw [List.foldl_cons, ih, outcome_step]

theorem outcome_nil (s : BlockScan) : s.outcome [] = s.close.closed := by
  rcases s with ⟨next, closed, _ | b⟩
  · simp [outcome, close, Block.ofRows]
  · simp [outcome, close, Block.ofRows]

/-- The reading in one pass finds the blocks. -/
theorem blocksOf_eq (rows : List Text) : blocksOf rows = Block.ofRows 1 rows := by
  rw [blocksOf, ← outcome_nil, outcome_foldl]
  rfl

end BlockScan

/-! ## Rules over several rows

A row may be broken anywhere behind its separator. The pieces behind the break are rows of the same
block as long as none of them is blank or has a separator, and joining the rows of the block makes
up for the break. -/

namespace Block

theorem hasSeparator_append {row : Text} (h : hasSeparator row = true) (rest : Text) :
    hasSeparator (row ++ rest) = true := by
  rw [hasSeparator_iff] at h ⊢
  exact List.infix_append_of_infix_left h

/-- No block starts at a row that runs on. -/
theorem ofRows_pieces_append {pieces : List Text} (h : ∀ piece ∈ pieces, ¬ Closes piece)
    (line : Nat) (rows : List Text) :
    ofRows line (pieces ++ rows) = ofRows (line + pieces.length) rows := by
  induction pieces generalizing line with
  | nil => rfl
  | cons piece pieces ih =>
    obtain ⟨hpiece, hpieces⟩ := List.forall_mem_cons.1 h
    have hseparator : hasSeparator piece = false :=
      Bool.eq_false_iff.2 fun hseparator => hpiece (.inr hseparator)
    rw [List.cons_append, ofRows, hseparator, ih hpieces, List.length_cons, Nat.add_assoc,
      Nat.add_comm 1]
    rfl

theorem ofRows_append_cons {row : Text} (h : hasSeparator row = true) (line : Nat)
    (before rows : List Text) :
    ofRows line (before ++ row :: rows) =
      ofRows line before ++
        ⟨line + before.length, row ++ (rows.takeWhile continues).flatten⟩ ::
          ofRows (line + before.length + 1) rows := by
  rw [ofRows_append (continues_of_hasSeparator h), ofRows, if_pos h]

/-- A block does not depend on how its rows are broken, and the blocks behind it move down by the
rows that are gained. -/
theorem ofRows_broken {first : Text} {pieces : List Text} (hfirst : hasSeparator first = true)
    (hpieces : ∀ piece ∈ pieces, ¬ Closes piece) (line : Nat) (before after : List Text) :
    ∃ b behind,
      b = ⟨line + before.length, first ++ pieces.flatten ++ (after.takeWhile continues).flatten⟩ ∧
      ofRows line (before ++ (first ++ pieces.flatten) :: after) =
        ofRows line before ++ b :: behind ∧
      ofRows line (before ++ first :: (pieces ++ after)) =
        ofRows line before ++ b :: behind.map (moveDown pieces.length) := by
  refine ⟨_, _, rfl, ofRows_append_cons (hasSeparator_append hfirst _) .., ?_⟩
  rw [ofRows_append_cons hfirst,
    List.takeWhile_append_of_pos fun piece hpiece => continues_iff.2 (hpieces piece hpiece),
    List.flatten_append, List.append_assoc, ofRows_pieces_append hpieces, ofRows_add]

theorem length_ofRows (line : Nat) (rows : List Text) :
    (ofRows line rows).length = rows.countP hasSeparator := by
  induction rows generalizing line with
  | nil => rfl
  | cons row rows ih =>
    rw [ofRows, List.countP_cons]
    split
    · rw [List.length_cons, ih]
    · exact ih (line + 1)

end Block

namespace Grammar

variable {t t' first : Text} {before pieces after : List Text}

theorem read_broken (hfirst : hasSeparator first = true)
    (hpieces : ∀ piece ∈ pieces, ¬ Block.Closes piece)
    (hrows : t.rows = before ++ (first ++ pieces.flatten) :: after)
    (hrows' : t'.rows = before ++ first :: (pieces ++ after)) :
    ∃ front rule behind, front.length = before.countP hasSeparator ∧
      (∀ r, rule = some r → r.line = some ((before.length : Int) + 1)) ∧
      read t = front ++ rule :: behind ∧
      read t' = front ++ rule :: behind.map (Option.map (Rule.moveDown pieces.length)) := by
  obtain ⟨b, behind, hb, hblocks, hblocks'⟩ := Block.ofRows_broken hfirst hpieces 1 before after
  refine ⟨(Block.ofRows 1 before).map Block.rule?, b.rule?, behind.map Block.rule?, ?_, ?_, ?_, ?_⟩
  · rw [List.length_map, Block.length_ofRows]
  · intro r hr
    rw [line_of_rule? hr, hb, Nat.add_comm]
    rfl
  · rw [read, blocks, hrows, hblocks, List.map_append, List.map_cons]
  · rw [read, blocks, hrows', hblocks', List.map_append, List.map_cons, List.map_map, List.map_map]
    exact congrArg _ (congrArg _ (List.map_congr_left fun b _ => Block.rule?_moveDown _ b))

/-- **Blocks follow the separators.** Each row with a separator starts one block, in order, and the
text of the block is this row with the rows behind it, joined, up to the next row that is blank or
has a separator. A reading in one pass finds the same blocks. A row outside of them does not matter:
when it is emptied, the blocks stay as they are. So a rule can be broken into rows anywhere behind
its separator, as long as none of these rows is blank or has a separator: it is read as the same
rule with the same line, and the rules behind it only move down. -/
theorem blocks_follow_separators (t : Text) :
    List.Forall₂ (Block.IsFrom t.rows) (t.rows.findIdxs hasSeparator) (blocks t) ∧
    BlockScan.blocksOf t.rows = blocks t ∧
    (∀ k, ¬ Block.Covers t.rows k → ∀ t', t'.rows = t.rows.set k [] → blocks t' = blocks t) ∧
    ∀ t' before first pieces after, hasSeparator first = true →
      (∀ piece ∈ pieces, ¬ Block.Closes piece) →
      t.rows = before ++ (first ++ pieces.flatten) :: after →
      t'.rows = before ++ first :: (pieces ++ after) →
      ∃ front rule behind, front.length = before.countP hasSeparator ∧
        (∀ r, rule = some r → r.line = some ((before.length : Int) + 1)) ∧
        read t = front ++ rule :: behind ∧
        read t' = front ++ rule :: behind.map (Option.map (Rule.moveDown pieces.length)) := by
  refine ⟨Block.forall₂_isFrom_ofRows [] t.rows, BlockScan.blocksOf_eq t.rows, ?_, ?_⟩
  · intro k hk t' hrows
    rw [blocks, blocks, hrows]
    exact @Block.ofRows_set_of_not_covers [] t.rows k 1 (by simpa using hk)
  · exact fun _ _ _ _ _ => read_broken

/-- A rule on one row, with a row behind it that belongs to no block. -/
def joinedText : Text := "# sums\n\n<sum> ::= <digit> | <digit>+<sum>\n\nnote\n<digit> ::= 0".toList

/-- The same rule on three rows. -/
def brokenText : Text :=
  "# sums\n\n<sum> ::=\n <digit> | <dig\nit>+<sum>\n\nnote\n<digit> ::= 0".toList

theorem blocks_follow_separators_of_joinedText :
    (∃ rule behind, read joinedText = rule :: behind ∧
      read brokenText = rule :: behind.map (Option.map (Rule.moveDown 2)) ∧
      rule.map Rule.line = some (some 3)) ∧
    ¬ Block.Covers joinedText.rows 4 ∧
    ∀ t' : Text, t'.rows = joinedText.rows.set 4 [] → blocks t' = blocks joinedText := by
  obtain ⟨-, -, houtside, hbroken⟩ := blocks_follow_separators joinedText
  have hnote : ¬ Block.Covers joinedText.rows 4 := by
    rintro ⟨start, hstart, stop, hruns, hle, hlt⟩
    have hstarts : joinedText.rows.findIdxs hasSeparator = [2, 5] := by decide +kernel
    rw [hstarts] at hstart
    obtain rfl : start = 2 := by
      rcases List.mem_cons.1 hstart with rfl | hstart
      · rfl
      · rw [List.mem_singleton.1 hstart] at hle
        omega
    exact hruns.inside 3 [] (by omega) (by omega) (by decide +kernel) (.inl rfl)
  refine ⟨?_, hnote, houtside 4 hnote⟩
  obtain ⟨front, rule, behind, hfront, hline, hread, hread'⟩ := hbroken brokenText
    ["# sums".toList, []] "<sum> ::=".toList [" <digit> | <dig".toList, "it>+<sum>".toList]
    [[], "note".toList, "<digit> ::= 0".toList] (by decide)
    (by simp only [← Block.continues_iff]; decide) (by decide +kernel) (by decide +kernel)
  obtain rfl : front = [] := List.eq_nil_of_length_eq_zero (hfront.trans (by decide))
  have hrule : rule.isSome = true := by
    have hhead : ((read joinedText).head?.bind id).isSome = true := by decide +kernel
    rwa [hread] at hhead
  obtain ⟨r, rfl⟩ := Option.isSome_iff_exists.1 hrule
  exact ⟨some r, behind, hread, hread', congrArg some (hline r rfl)⟩

end Grammar

end GrammarTree
