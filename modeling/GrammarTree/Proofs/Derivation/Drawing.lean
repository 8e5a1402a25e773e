import GrammarTree.Derivation.Drawing
import GrammarTree.Proofs.Derivation.Edits
import GrammarTree.Proofs.Text.Numeral
import GrammarTree.Text.Blank
import Mathlib.Data.List.Nodup

/-!
# The box of a drawing

A drawing shows one node in a box, if it is told to and the node is there. This file reads that back
from the text of the drawing: split into rows, a drawing has one row that ends like the row of a
boxed node, or none.

Reading by rows is safe only as long as no label runs over to the next row. A label comes from a
grammar, where it is a rule's symbol or a token, and neither holds a line feed; so the statements
have this as a hypothesis on all labels, and it is carried through every change of a derivation by a
lemma of its own. With arbitrary labels a drawing can still be read, though not by rows: that is the
subject of `Proofs.Derivation.Reconstruction`.

The row of a node ends with its shape, and the shape is written behind the closing quote of its
label. A link ends with a number. So the end of a row tells which rows are boxed, whatever the
labels are otherwise.

What is here:

* `Derivation.AllLabels`, what holds of every label, through all changes of a derivation;
* `Derivation.rows_draw`: the rows of a drawing are its lines;
* `boxedRows` and `Derivation.boxedRows_draw`: the box is around the highlighted node.
-/

set_option autoImplicit false

namespace GrammarTree

namespace Derivation

variable {g : Derivation} {P : Text → Prop}

/-! ## Labels

What holds of all labels is kept by every change that brings in only labels of which it holds. The
property is a parameter here, and sessions use it for the absence of line feeds. -/

/-- Whether something holds of the labels of all nodes. -/
def AllLabels (P : Text → Prop) (g : Derivation) : Prop := ∀ n ∈ g.nodes, P n.label

namespace AllLabels

theorem empty : AllLabels P Derivation.empty := fun _ h => absurd h List.not_mem_nil

theorem of_label? (h : AllLabels P g) {id : NodeId} {label : Text}
    (hlabel : g.label? id = some label) : P label := by
  obtain ⟨n, hn, rfl⟩ := Option.map_eq_some_iff.1 hlabel
  exact h n (mem_of_find? hn).1

theorem growAt (h : AllLabels P g) {label : Text} (hlabel : P label) (parent : Option NodeId) :
    AllLabels P (g.growAt parent label) := by
  intro n hn
  rcases List.mem_append.1 hn with hn | hn
  · exact h n hn
  · obtain rfl := List.mem_singleton.1 hn
    exact hlabel

theorem setParent (h : AllLabels P g) (id : NodeId) (parent : Option NodeId) :
    AllLabels P (g.setParent id parent) := by
  intro n hn
  obtain ⟨m, hm, rfl⟩ := List.mem_map.1 hn
  have hlabel := h m hm
  split <;> exact hlabel

theorem remove (h : AllLabels P g) (id : NodeId) : AllLabels P (g.remove id) := by
  intro n hn
  obtain ⟨m, hm, rfl⟩ := List.mem_map.1 hn
  have hlabel := h m (List.mem_of_mem_filter hm)
  rw [Node.detachFrom]
  split <;> exact hlabel

theorem sweep (h : AllLabels P g) (pending : List NodeId) : AllLabels P (g.sweep pending).2 := by
  fun_induction Derivation.sweep g pending with
  | case1 => exact h
  | case2 g id pending swept ih => exact ih (h.remove id)

theorem withoutSubtree (h : AllLabels P g) (id : NodeId) : AllLabels P (g.withoutSubtree id) :=
  (h.setParent id none).sweep [id]

theorem withChildren (h : AllLabels P g) {labels : List Text} (hlabels : ∀ label ∈ labels, P label)
    (parent : NodeId) : AllLabels P (g.withChildren parent labels) := by
  induction labels generalizing g with
  | nil => exact h
  | cons label labels ih =>
    exact ih (h.growAt (hlabels label (List.mem_cons_self ..)) _) fun l hl =>
      hlabels l (List.mem_cons_of_mem _ hl)

theorem withDescendants (h : AllLabels P g) {labels : List Text}
    (hlabels : ∀ label ∈ labels, P label) (parent : NodeId) :
    AllLabels P (g.withDescendants parent labels) := by
  induction labels generalizing g parent with
  | nil => exact h
  | cons label labels ih =>
    exact ih (h.growAt (hlabels label (List.mem_cons_self ..)) _)
      (fun l hl => hlabels l (List.mem_cons_of_mem _ hl)) g.next

theorem withPath (h : AllLabels P g) {chain : Chain} (hspine : ∀ l ∈ chain.intermediates, P l)
    (hleaves : ∀ l ∈ Alternative.tokens chain.alternative, P l) (source : NodeId) :
    AllLabels P (g.withPath source chain) :=
  (h.withDescendants hspine source).withChildren hleaves _

end AllLabels

end Derivation

/-! ## Rows -/

namespace Text

theorem intercalate_concat_nil {ls : List Text} (hne : ls ≠ []) :
    List.intercalate ['\n'] (ls ++ [[]]) = List.intercalate ['\n'] ls ++ ['\n'] := by
  induction ls with
  | nil => exact absurd rfl hne
  | cons l ls ih =>
    cases ls with
    | nil => simp [List.intercalate_cons_cons]
    | cons next ls =>
      simp only [List.cons_append] at ih
      rw [List.cons_append, List.cons_append, List.intercalate_cons_cons, ih (List.cons_ne_nil _ _),
        List.intercalate_cons_cons, List.append_assoc _ _ ['\n']]

/-- The rows of some lines with a line feed behind them are these lines, and an empty row. -/
theorem rows_intercalate_concat {ls : List Text} (hls : ∀ l ∈ ls, '\n' ∉ l) (hne : ls ≠ []) :
    rows (List.intercalate ['\n'] ls ++ ['\n']) = ls ++ [[]] := by
  rw [rows, ← intercalate_concat_nil hne]
  refine List.splitOn_intercalate '\n' (fun l hl => ?_) (by simp)
  rcases List.mem_append.1 hl with hl | hl
  · exact hls l hl
  · rw [List.mem_singleton.1 hl]
    exact List.not_mem_nil

end Text

theorem newline_notMem_escapeQuotes {label : Text} (h : '\n' ∉ label) :
    '\n' ∉ escapeQuotes label := by
  induction label with
  | nil => exact List.not_mem_nil
  | cons c label ih =>
    rw [List.mem_cons, not_or] at h
    rw [escapeQuotes]
    split <;> simp [h.1, ih h.2]

namespace Derivation

variable {g : Derivation}

theorem newline_notMem_caption (h : g.AllLabels fun label => '\n' ∉ label) (o : DrawingOptions)
    (id : NodeId) : '\n' ∉ g.caption o id := by
  have hlabel : '\n' ∉ (g.label? id).getD [] := by
    cases hid : g.label? id with
    | none => exact List.not_mem_nil
    | some label => exact h.of_label? hid
  have hid : '\n' ∉ Text.ofInt id := Text.notMem_ofInt (by decide) (by decide) id
  rw [caption]
  split
  · simp [hid, hlabel]
  · exact hlabel

theorem newline_notMem_nodeLine (h : g.AllLabels fun label => '\n' ∉ label) (o : DrawingOptions)
    (id : NodeId) : '\n' ∉ g.nodeLine o id := by
  have hid : '\n' ∉ Text.ofInt id := Text.notMem_ofInt (by decide) (by decide) id
  have hcaption := newline_notMem_escapeQuotes (newline_notMem_caption h o id)
  have hshape : '\n' ∉ (if some id = o.highlight then "box".toList else "plain".toList) := by
    split <;> decide
  simp only [nodeLine, List.mem_append, not_or]
  exact ⟨⟨⟨⟨⟨hid, by decide⟩, hcaption⟩, by decide⟩, hshape⟩, by decide⟩

theorem newline_notMem_linkLine (link : NodeId × NodeId) : '\n' ∉ linkLine link := by
  have hid : ∀ id, '\n' ∉ Text.ofInt id := Text.notMem_ofInt (by decide) (by decide)
  simp only [linkLine, List.mem_append, not_or]
  exact ⟨⟨hid _, by decide⟩, hid _⟩

/-- The rows of a drawing are its lines, and an empty row after the last line feed. -/
theorem rows_draw (h : g.AllLabels fun label => '\n' ∉ label) (o : DrawingOptions) :
    (g.draw o).rows = g.drawingLines o.resolved ++ [[]] := by
  refine Text.rows_intercalate_concat (fun line hline => ?_) (by simp [drawingLines])
  simp only [drawingLines, List.mem_append, List.mem_cons, List.mem_map, List.not_mem_nil,
    or_false] at hline
  obtain ((rfl | ⟨id, -, rfl⟩) | ⟨link, -, rfl⟩) | rfl := hline
  · decide
  · exact newline_notMem_nodeLine h _ id
  · exact newline_notMem_linkLine link
  · decide

end Derivation

/-! ## The box -/

/-- What ends the row of a node in a box. -/
def boxEnd : Text := "\" shape=box]".toList

/-- The rows of a drawing that show a node in a box. -/
def boxedRows (drawing : Text) : List Text := drawing.rows.filter boxEnd.isSuffixOf

namespace Derivation

variable {g : Derivation}

theorem isSuffixOf_nodeLine (o : DrawingOptions) (id : NodeId) :
    boxEnd.isSuffixOf (g.nodeLine o id) = decide (some id = o.highlight) := by
  have hline : g.nodeLine o id = (Text.ofInt id ++ " [label=\"".toList ++
      escapeQuotes (g.caption o id)) ++ ("\" shape=".toList ++
        (if some id = o.highlight then "box".toList else "plain".toList) ++ [']']) := by
    simp only [nodeLine, List.append_assoc]
  rw [hline]
  by_cases hbox : some id = o.highlight
  · rw [if_pos hbox, decide_eq_true hbox, List.isSuffixOf_iff_suffix]
    exact List.suffix_append _ _
  · rw [if_neg hbox, decide_eq_false hbox, Bool.eq_false_iff, Ne, List.isSuffixOf_iff_suffix]
    intro hsuffix
    exact absurd (List.suffix_of_suffix_length_le hsuffix (List.suffix_append _ _) (by decide))
      (by decide)

theorem isSuffixOf_linkLine (link : NodeId × NodeId) :
    boxEnd.isSuffixOf (linkLine link) = false := by
  have hid : ∀ id, ']' ∉ Text.ofInt id := Text.notMem_ofInt (by decide) (by decide)
  have hbracket : ']' ∉ linkLine link := by
    simp only [linkLine, List.mem_append, not_or]
    exact ⟨⟨hid _, by decide⟩, hid _⟩
  rw [Bool.eq_false_iff, Ne, List.isSuffixOf_iff_suffix]
  exact fun hsuffix => hbracket (hsuffix.subset (by decide))

/-- No number is used twice, so at most one node is the highlighted one. -/
theorem filter_ids (hids : g.ids.Nodup) (highlight : Option NodeId) :
    g.ids.filter (fun id => some id = highlight) = highlight.toList.filter g.contains := by
  cases highlight with
  | none => simp
  | some id =>
    simp only [Option.some.injEq, Option.toList_some]
    cases hid : g.contains id with
    | true =>
      rw [List.filter_eq, List.count_eq_one_of_mem hids (mem_ids.2 hid),
        List.replicate_one, List.filter_singleton, hid]
      rfl
    | false =>
      have hcount : g.ids.count id = 0 :=
        List.count_eq_zero.2 fun hmem => by simp [mem_ids.1 hmem] at hid
      rw [List.filter_eq, hcount, List.replicate_zero, List.filter_singleton, hid]
      rfl

/-- **A drawing boxes the highlighted node**, if it is there, and nothing else. -/
theorem boxedRows_draw (hids : g.ids.Nodup) (h : g.AllLabels fun label => '\n' ∉ label)
    (o : DrawingOptions) :
    boxedRows (g.draw o) =
      (o.highlight.toList.filter g.contains).map (g.nodeLine o.resolved) := by
  have hnodes : (g.ids.map (g.nodeLine o.resolved)).filter boxEnd.isSuffixOf =
      (g.ids.filter fun id => some id = o.highlight).map (g.nodeLine o.resolved) := by
    rw [List.filter_map]
    refine congrArg (List.map _) (List.filter_congr fun id _ => ?_)
    exact isSuffixOf_nodeLine _ id
  have hlinks : (g.links.map linkLine).filter boxEnd.isSuffixOf = [] := by
    rw [List.filter_map, List.map_eq_nil_iff, List.filter_eq_nil_iff]
    intro link _
    rw [Function.comp_apply, isSuffixOf_linkLine]
    exact Bool.false_ne_true
  have hhead : ¬ boxEnd.isSuffixOf "graph G \x7b".toList = true := by decide
  have htail : [['\x7d'], []].filter boxEnd.isSuffixOf = [] := by decide
  rw [boxedRows, rows_draw h, drawingLines, List.append_assoc, List.singleton_append,
    List.filter_append, List.filter_append, List.filter_cons_of_neg hhead, hnodes, hlinks, htail,
    filter_ids hids, List.append_nil, List.append_nil]

end Derivation

end GrammarTree
