import GrammarTree.Proofs.Grammar.RuleText
import GrammarTree.Proofs.Grammar.Unnumbered

/-!
# Reading is local

A block ends at a blank row at the latest. This file proves that a grammar text can therefore be
read in parts: what stands behind a blank row is read as if it stood alone, whatever the part in
front of it holds, and only the lines of its rules are counted from further up.

The blocks of rows are a recursion along the rows with a counter for the lines, so there are two
things to prove. A counter that starts later moves all blocks down, and a rule keeps everything but
its line when its block is moved. And a row that no block runs on over splits the recursion: what is
taken in front of it does not look behind it.

What is here:

* `Block.moveDown` and `Rule.moveDown`, the same block and the same rule on a later line;
* `Block.ofRows_append_blank`: a blank row divides the rows of a text into two lists of blocks;
* `Grammar.read_append_blank_line`: two texts with an empty line between them are read one after the
  other, so that a change of the first one does not reach the rules of the second.
-/

set_option autoImplicit false

namespace GrammarTree

/-! ## Later lines -/

namespace Rule

/-- A rule that starts some lines further down. -/
def moveDown (count : Nat) (r : Rule) : Rule := { r with line := r.line.map (· + count) }

theorem ofParts_moveDown (count : Nat) (line : Option Int) (name : Text)
    (alternatives : List Text) :
    ofParts (line.map (· + count)) name alternatives =
      (ofParts line name alternatives).map (moveDown count) := by
  unfold ofParts
  split <;> rfl

/-- The line of a rule is not read from its text. -/
theorem read?_moveDown (count : Nat) (text : Text) (line : Option Int) :
    read? text (line.map (· + count)) = (read? text line).map (moveDown count) := by
  rw [read?, read?, read, read]
  split
  · rename_i left right _
    split
    · rw [ofParts_moveDown]
      cases ofParts line (bareName left.trim) (alternativesOf right) <;> rfl
    · rfl
  · rfl

end Rule

namespace Block

/-- A block that starts some rows further down. -/
def moveDown (count : Nat) (b : Block) : Block := { b with line := b.line + count }

theorem rule?_moveDown (count : Nat) (b : Block) :
    (b.moveDown count).rule? = b.rule?.map (Rule.moveDown count) := by
  rw [rule?, rule?, ← Rule.read?_moveDown]
  rfl

theorem ofRows_add (line count : Nat) (rows : List Text) :
    ofRows (line + count) rows = (ofRows line rows).map (moveDown count) := by
  induction rows generalizing line with
  | nil => rfl
  | cons row rows ih =>
    rw [ofRows, ofRows, Nat.add_right_comm, ih]
    split <;> rfl

/-! ## Rows that divide the blocks

A row with a separator divides the blocks as well as a blank one does. It starts a block itself, so
that it belongs to the second part, while a blank row belongs to neither. -/

variable {blank : Text}

theorem hasSeparator_of_isBlankOnly (h : blank.isBlankOnly = true) :
    hasSeparator blank = false := by
  rw [Bool.eq_false_iff, Ne, hasSeparator_iff]
  intro hseparator
  have hcolon : isBlank ':' = true :=
    Text.isBlankOnly_iff.1 h ':' (hseparator.subset (List.mem_cons_self ..))
  exact absurd hcolon (by decide)

theorem continues_of_isBlankOnly (h : blank.isBlankOnly = true) : continues blank = false := by
  rw [continues, h]
  rfl

theorem continues_of_hasSeparator {row : Text} (h : hasSeparator row = true) :
    continues row = false := by
  rw [continues, h, Bool.not_true, Bool.and_false]

/-- A block does not run on over a row that is blank or starts a block. -/
theorem takeWhile_continues_append {row : Text} (h : continues row = false)
    (rows rows' : List Text) :
    (rows ++ row :: rows').takeWhile continues = rows.takeWhile continues := by
  induction rows with
  | nil => rw [List.nil_append, List.takeWhile_cons, h]; rfl
  | cons row' rows ih => rw [List.cons_append, List.takeWhile_cons, List.takeWhile_cons, ih]

/-- A row that is blank or starts a block divides the blocks. -/
theorem ofRows_append {row : Text} (h : continues row = false) (line : Nat)
    (rows rows' : List Text) :
    ofRows line (rows ++ row :: rows') =
      ofRows line rows ++ ofRows (line + rows.length) (row :: rows') := by
  induction rows generalizing line with
  | nil => rfl
  | cons row' rows ih =>
    have hnext : line + 1 + rows.length = line + (rows.length + 1) := by omega
    rw [List.cons_append, ofRows, ofRows, takeWhile_continues_append h, ih, List.length_cons,
      hnext]
    split <;> rfl

/-- **A blank row divides the blocks.** No block reaches over it, and none starts at it. -/
theorem ofRows_append_blank (h : blank.isBlankOnly = true) (line : Nat) (rows rows' : List Text) :
    ofRows line (rows ++ blank :: rows') =
      ofRows line rows ++ ofRows (line + rows.length + 1) rows' := by
  rw [ofRows_append (continues_of_isBlankOnly h), ofRows, hasSeparator_of_isBlankOnly h]
  rfl

end Block

/-! ## Parts of a grammar text -/

theorem Text.rows_append_newline (t t' : Text) : rows (t ++ '\n' :: t') = t.rows ++ t'.rows :=
  List.splitOn_append_cons_self t t'

namespace Grammar

variable {blank : Text}

theorem blocks_append_blank (h : blank.isBlankOnly = true) (hrow : '\n' ∉ blank) (t t' : Text) :
    blocks (t ++ '\n' :: (blank ++ '\n' :: t')) =
      blocks t ++ (blocks t').map (Block.moveDown (t.rows.length + 1)) := by
  have hblank : Text.rows (blank ++ '\n' :: t') = blank :: t'.rows :=
    List.splitOn_append_cons_self_of_not_mem hrow t'
  rw [blocks, Text.rows_append_newline, hblank, Block.ofRows_append_blank h, Nat.add_assoc,
    Block.ofRows_add]
  rfl

theorem read_append_blank (h : blank.isBlankOnly = true) (hrow : '\n' ∉ blank) (t t' : Text) :
    read (t ++ '\n' :: (blank ++ '\n' :: t')) =
      read t ++ (read t').map (Option.map (Rule.moveDown (t.rows.length + 1))) := by
  rw [read, blocks_append_blank h hrow, List.map_append, read, read, List.map_map, List.map_map]
  exact congrArg _ (List.map_congr_left fun b _ => Block.rule?_moveDown _ b)

/-- **Reading is local.** Of two texts with an empty line between them, each gives the rules that it
gives alone, with none for each malformed block in its place; the rules of the second one start as
many lines further down as stand in front of it. Whatever takes the place of the first text, the
rules of the second one change at most their lines. -/
theorem read_append_blank_line (t t' : Text) :
    read (t ++ ['\n', '\n'] ++ t') =
        read t ++ (read t').map (Option.map (Rule.moveDown (t.rows.length + 1))) ∧
      ∀ edited : Text, ∃ behind behind',
        read (t ++ ['\n', '\n'] ++ t') = read t ++ behind ∧
        read (edited ++ ['\n', '\n'] ++ t') = read edited ++ behind' ∧
        behind.map (Option.map Rule.unnumbered) = behind'.map (Option.map Rule.unnumbered) := by
  have hread : ∀ front : Text, read (front ++ ['\n', '\n'] ++ t') =
      read front ++ (read t').map (Option.map (Rule.moveDown (front.rows.length + 1))) := by
    intro front
    rw [List.append_assoc]
    exact @read_append_blank [] rfl List.not_mem_nil front t'
  have hplain : ∀ count : Nat,
      ((read t').map (Option.map (Rule.moveDown count))).map (Option.map Rule.unnumbered) =
        (read t').map (Option.map Rule.unnumbered) := by
    intro count
    rw [List.map_map]
    refine List.map_congr_left fun rule _ => ?_
    rw [Function.comp_apply, Option.map_map]
    rfl
  exact ⟨hread t, fun edited => ⟨_, _, hread t, hread edited, (hplain _).trans (hplain _).symm⟩⟩

/-- Behind two rows, the second of which is malformed, a rule starts three lines further down than
it does alone. -/
example :
    let lineAndText := Option.map fun r : Rule => (r.line, r.toText)
    (read ("<a> ::= x\n<b ::= y".toList ++ ['\n', '\n'] ++ "<c> ::= z".toList)).map lineAndText =
        [some (some 1, "<a> ::= x".toList), none, some (some 4, "<c> ::= z".toList)] ∧
      (read "<c> ::= z".toList).map lineAndText = [some (some 1, "<c> ::= z".toList)] := by
  decide +kernel

end Grammar

end GrammarTree
