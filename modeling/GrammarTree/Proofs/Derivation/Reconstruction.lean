import GrammarTree.Proofs.Derivation.Drawing
import GrammarTree.Proofs.Derivation.History
import GrammarTree.Proofs.Text.Blank

/-!
# What a drawing tells

Labels are arbitrary texts, and a drawing writes them into its lines. A label may hold quotes and
line feeds, and it may look like the next line of the drawing. This file proves that a derivation
can be told from its drawing all the same: a label cannot end its quotes, so that every statement of
the drawing can be told from what follows it.

The drawing is not parsed here. It is enough that two drawings with the same text state the same
things, and this is shown by cancellation: two texts that are equal and start with a number each
start with the same number, behind it stands the same word, and so on to the end of a statement,
where two equal rests are left. One cancellation lemma is needed for each part of a line. The one
for labels goes through a reader of quoted texts, since a label has no bound that could be seen from
outside.

What cannot be told is the number of the next node, which no drawing shows, and, where only the
placeholders carry their numbers, whether such a number is part of the label. The theorem is
therefore about the drawings with all numbers or with none, and the example behind it shows that the
third kind has to be left out.

What is here:

* `readQuoted`, the text up to the quote that ends it, with `readQuoted_escapeQuotes`;
* `Drawing.Statement`, the nodes and links that a drawing states, and
  `Drawing.Statement.eq_of_ofLines`: they can be told from its lines;
* `Derivation.statements`, what the drawing of a derivation states, with the nodes and the links
  that can be read off it;
* `Derivation.draw_determines_nodes`: two derivations with the same drawing have the same nodes,
  labels and links, and the same box.
-/

set_option autoImplicit false

namespace GrammarTree

/-! ## Texts up to a delimiter -/

namespace Text

variable {c : Char} {front front' rest rest' : Text}

/-- A text can be cut at the first delimiter in one way only. -/
theorem append_cons_inj (hfront : c ∉ front) (hfront' : c ∉ front')
    (h : front ++ c :: rest = front' ++ c :: rest') : front = front' ∧ rest = rest' := by
  have hcut : ∀ {front : Text}, c ∉ front → ∀ rest,
      (front ++ c :: rest).takeWhile (· ≠ c) = front := by
    intro front hfront rest
    refine takeWhile_append (fun d hd => decide_eq_true ?_) (by simp)
    rintro rfl
    exact hfront hd
  have heq : front = front' := by rw [← hcut hfront rest, h, hcut hfront' rest']
  subst heq
  exact ⟨rfl, (List.cons.inj (List.append_cancel_left h)).2⟩

theorem ofInt_append_cons_inj {m n : Int} (hsign : c ≠ '-') (hdigit : c.isDigit = false)
    (h : ofInt m ++ c :: rest = ofInt n ++ c :: rest') : m = n ∧ rest = rest' := by
  obtain ⟨hnumeral, hrest⟩ :=
    append_cons_inj (notMem_ofInt hsign hdigit m) (notMem_ofInt hsign hdigit n) h
  exact ⟨ofInt_injective hnumeral, hrest⟩

theorem intercalate_concat_nil_eq_ofLines (ls : List Text) :
    List.intercalate ['\n'] (ls ++ [[]]) = ofLines ls := by
  induction ls with
  | nil => rfl
  | cons l ls ih =>
    rw [List.cons_append, List.intercalate_cons_of_ne_nil (by simp), ih]
    rfl

end Text

/-! ## Quoted texts -/

/-- The text in front of the double quote that ends it, and what stands behind this quote. A
backslash stands for the character behind it, which therefore ends nothing. -/
def readQuoted : Text → Option (Text × Text)
  | [] => none
  | '"' :: rest => some ([], rest)
  | ['\\'] => none
  | '\\' :: c :: t => (readQuoted t).map fun r => (c :: r.1, r.2)
  | c :: t => (readQuoted t).map fun r => (c :: r.1, r.2)

/-- A label in quotes is read back, whatever it holds and whatever follows it. -/
theorem readQuoted_escapeQuotes (label rest : Text) :
    readQuoted (escapeQuotes label ++ '"' :: rest) = some (label, rest) := by
  induction label with
  | nil => rfl
  | cons c label ih =>
    rw [escapeQuotes]
    split
    · rw [List.cons_append, List.cons_append, readQuoted, ih, Option.map_some]
    · rename_i hplain
      simp only [Bool.or_eq_true, decide_eq_true_eq, not_or] at hplain
      rw [List.cons_append, readQuoted, ih, Option.map_some]
      · exact hplain.2
      · exact fun hescape _ => hplain.1 hescape
      · exact fun d t hescape _ => hplain.1 hescape

theorem escapeQuotes_append_inj {label label' rest rest' : Text}
    (h : escapeQuotes label ++ '"' :: rest = escapeQuotes label' ++ '"' :: rest') :
    label = label' ∧ rest = rest' := by
  have hread := congrArg readQuoted h
  rw [readQuoted_escapeQuotes, readQuoted_escapeQuotes] at hread
  exact Prod.mk.inj (Option.some.inj hread)

/-! ## Statements

Both kinds of lines start with a number and go on with a blank, and the character behind it tells
them apart. The last line of a drawing starts with a brace, which is not the beginning of any
number, so that it cannot be taken for one more statement. -/

namespace Drawing

/-- What a line of a drawing states, its first and last line aside. -/
inductive Statement where
  /-- There is a node with a caption, in a box or not. -/
  | node (id : NodeId) (caption : Text) (boxed : Bool)
  /-- One node is the parent of another. -/
  | link (parent child : NodeId)
  deriving DecidableEq, Repr

namespace Statement

/-- The name of the shape of a node in a box or without one. -/
def shape (boxed : Bool) : Text := if boxed then "box".toList else "plain".toList

/-- The line of a statement. -/
def text : Statement → Text
  | .node id caption boxed =>
    Text.ofInt id ++ " [label=\"".toList ++ escapeQuotes caption ++ "\" shape=".toList ++
      shape boxed ++ [']']
  | .link parent child => Derivation.linkLine (parent, child)

variable {s s' : Statement} {rest rest' : Text}

theorem text_node_append (id : NodeId) (caption : Text) (boxed : Bool) (rest : Text) :
    (node id caption boxed).text ++ '\n' :: rest =
      Text.ofInt id ++ ' ' :: ("[label=\"".toList ++ (escapeQuotes caption ++ '"' ::
        (" shape=".toList ++ (shape boxed ++ ']' :: '\n' :: rest)))) := by
  simp [text]

theorem text_link_append (parent child : NodeId) (rest : Text) :
    (link parent child).text ++ '\n' :: rest =
      Text.ofInt parent ++ ' ' :: ("-- ".toList ++ (Text.ofInt child ++ '\n' :: rest)) := by
  simp [text, Derivation.linkLine]

theorem eq_of_shape_append {boxed boxed' : Bool} (h : shape boxed ++ rest = shape boxed' ++ rest') :
    boxed = boxed' ∧ rest = rest' := by
  cases boxed <;> cases boxed'
  · exact ⟨rfl, List.append_cancel_left h⟩
  · cases h
  · cases h
  · exact ⟨rfl, List.append_cancel_left h⟩

/-- A statement can be told from what follows it. -/
theorem eq_of_text_append (h : s.text ++ '\n' :: rest = s'.text ++ '\n' :: rest') :
    s = s' ∧ rest = rest' := by
  cases s with
  | node id caption boxed =>
    cases s' with
    | node id' caption' boxed' =>
      rw [text_node_append, text_node_append] at h
      obtain ⟨rfl, hcaption⟩ := Text.ofInt_append_cons_inj (by decide) (by decide) h
      obtain ⟨rfl, hshape⟩ := escapeQuotes_append_inj (List.append_cancel_left hcaption)
      obtain ⟨rfl, hrest⟩ := eq_of_shape_append (List.append_cancel_left hshape)
      exact ⟨rfl, (List.cons.inj (List.cons.inj hrest).2).2⟩
    | link parent child =>
      rw [text_node_append, text_link_append] at h
      obtain ⟨-, h⟩ := Text.ofInt_append_cons_inj (by decide) (by decide) h
      cases h
  | link parent child =>
    cases s' with
    | node id caption boxed =>
      rw [text_node_append, text_link_append] at h
      obtain ⟨-, h⟩ := Text.ofInt_append_cons_inj (by decide) (by decide) h
      cases h
    | link parent' child' =>
      rw [text_link_append, text_link_append] at h
      obtain ⟨rfl, hends⟩ := Text.ofInt_append_cons_inj (by decide) (by decide) h
      obtain ⟨rfl, hrest⟩ :=
        Text.ofInt_append_cons_inj (by decide) (by decide) (List.append_cancel_left hends)
      exact ⟨rfl, hrest⟩

theorem exists_text_append (s : Statement) (rest : Text) :
    ∃ (id : NodeId) (t : Text), s.text ++ '\n' :: rest = Text.ofInt id ++ ' ' :: t := by
  cases s with
  | node id caption boxed => exact ⟨id, _, text_node_append id caption boxed rest⟩
  | link parent child => exact ⟨parent, _, text_link_append parent child rest⟩

/-- A statement does not start like the last line of a drawing. -/
theorem closing_ne_text_append (t : Text) : '\x7d' :: t ≠ s.text ++ '\n' :: rest := by
  obtain ⟨id, t', htext⟩ := s.exists_text_append rest
  have hnumeral : '\x7d' ∉ Text.ofInt id := Text.notMem_ofInt (by decide) (by decide) id
  rw [htext]
  cases hid : Text.ofInt id with
  | nil => simp
  | cons c numeral =>
    intro h
    rw [hid, (List.cons.inj h).1] at hnumeral
    exact hnumeral (List.mem_cons_self ..)

/-- Statements can be told from their lines, up to the last line of a drawing. -/
theorem eq_of_ofLines {ss ss' : List Statement} {closing : Text}
    (h : Text.ofLines (ss.map text) ++ '\x7d' :: closing =
      Text.ofLines (ss'.map text) ++ '\x7d' :: closing) : ss = ss' := by
  have hcons : ∀ (s : Statement) (ss : List Statement),
      Text.ofLines ((s :: ss).map text) ++ '\x7d' :: closing =
        s.text ++ '\n' :: (Text.ofLines (ss.map text) ++ '\x7d' :: closing) := by
    intro s ss
    simp [Text.ofLines]
  induction ss generalizing ss' with
  | nil =>
    cases ss' with
    | nil => rfl
    | cons s' ss' => exact absurd (h.trans (hcons s' ss')) (closing_ne_text_append closing)
  | cons s ss ih =>
    cases ss' with
    | nil => exact absurd (h.symm.trans (hcons s ss)) (closing_ne_text_append closing)
    | cons s' ss' =>
      rw [hcons, hcons] at h
      obtain ⟨rfl, hrest⟩ := eq_of_text_append h
      rw [ih hrest]

/-- The number, the caption and the box of a node. -/
def node? : Statement → Option (NodeId × Text × Bool)
  | .node id caption boxed => some (id, caption, boxed)
  | .link _ _ => none

/-- The two ends of a link. -/
def link? : Statement → Option (NodeId × NodeId)
  | .node _ _ _ => none
  | .link parent child => some (parent, child)

end Statement

end Drawing

/-! ## Drawings -/

namespace Derivation

open Drawing

variable {g g' : Derivation} {o : DrawingOptions}

/-- What the drawing of a derivation states with the options in force. -/
def statements (g : Derivation) (o : DrawingOptions) : List Statement :=
  g.ids.map (fun id => .node id (g.caption o id) (some id = o.highlight)) ++
    g.links.map fun link => .link link.1 link.2

theorem drawingLines_eq (g : Derivation) (o : DrawingOptions) :
    g.drawingLines o =
      "graph G \x7b".toList :: (g.statements o).map Statement.text ++ [['\x7d']] := by
  have hnode : Statement.text ∘ (fun id => .node id (g.caption o id) (some id = o.highlight)) =
      g.nodeLine o := by
    funext id
    simp [Statement.text, Statement.shape, nodeLine]
  rw [drawingLines, statements, List.map_append, List.map_map, List.map_map, hnode]
  rfl

theorem draw_eq (g : Derivation) (o : DrawingOptions) :
    g.draw o = "graph G \x7b\n".toList ++
      (Text.ofLines ((g.statements o.resolved).map Statement.text) ++ ['\x7d', '\n']) := by
  rw [draw, drawingLines_eq, ← Text.intercalate_concat_nil (by simp),
    Text.intercalate_concat_nil_eq_ofLines]
  simp [Text.ofLines]

theorem statements_eq_of_draw_eq {o' : DrawingOptions} (h : g.draw o = g'.draw o') :
    g.statements o.resolved = g'.statements o'.resolved := by
  rw [draw_eq, draw_eq] at h
  exact Statement.eq_of_ofLines (List.append_cancel_left h)

theorem filterMap_node?_statements (g : Derivation) (o : DrawingOptions) :
    (g.statements o).filterMap Statement.node? =
      g.ids.map fun id => (id, g.caption o id, decide (some id = o.highlight)) := by
  have hlinks : (g.links.map fun link => Statement.link link.1 link.2).filterMap
      Statement.node? = [] := by
    rw [List.filterMap_map, List.filterMap_eq_nil_iff]
    exact fun _ _ => rfl
  rw [statements, List.filterMap_append, hlinks, List.append_nil, List.filterMap_map,
    ← List.filterMap_eq_map]
  rfl

theorem filterMap_link?_statements (g : Derivation) (o : DrawingOptions) :
    (g.statements o).filterMap Statement.link? = g.links := by
  have hnodes : (g.ids.map fun id => Statement.node id (g.caption o id)
      (some id = o.highlight)).filterMap Statement.link? = [] := by
    rw [List.filterMap_map, List.filterMap_eq_nil_iff]
    exact fun _ _ => rfl
  rw [statements, List.filterMap_append, hnodes, List.nil_append, List.filterMap_map]
  exact List.filterMap_some

section

variable {o' : DrawingOptions} (h : g.statements o = g'.statements o')

include h

theorem links_eq_of_statements_eq : g.links = g'.links := by
  rw [← filterMap_link?_statements g o, h, filterMap_link?_statements]

theorem ids_eq_of_statements_eq : g.ids = g'.ids := by
  have hnodes := congrArg (fun ss => (ss.filterMap Statement.node?).map Prod.fst) h
  simpa only [filterMap_node?_statements, List.map_map, Function.comp_def, List.map_id']
    using hnodes

/-- A node that is stated has its caption and its box from the drawing. -/
theorem caption_eq_of_statements_eq {id : NodeId} (hid : g.contains id = true) :
    g.caption o id = g'.caption o' id ∧ (o.highlight = some id ↔ o'.highlight = some id) := by
  have hnodes := congrArg (List.filterMap Statement.node?) h
  rw [filterMap_node?_statements, filterMap_node?_statements, ← ids_eq_of_statements_eq h,
    List.map_inj_left] at hnodes
  obtain ⟨hcaption, hbox⟩ := Prod.mk.inj (Prod.mk.inj (hnodes id (mem_ids.2 hid))).2
  refine ⟨hcaption, ?_⟩
  rw [@eq_comm _ o.highlight, @eq_comm _ o'.highlight]
  exact decide_eq_decide.1 hbox

end

/-- Where all nodes or none are drawn with their numbers, only the label of a node is to be told
from its caption. -/
theorem caption_eq (hids : o.showIds = false ∨ o.showTerminalIds = true) (id : NodeId) :
    g.caption o id =
      (if o.showIds then Text.ofInt id ++ [':', ' '] else []) ++ (g.label? id).getD [] := by
  rw [caption]
  rcases hids with hids | hids
  · simp [hids]
  · cases hshow : o.showIds <;> simp [hids]

theorem label?_eq_of_caption_eq (hids : o.showIds = false ∨ o.showTerminalIds = true) {id : NodeId}
    (hid : g.contains id = true) (hid' : g'.contains id = true)
    (h : g.caption o id = g'.caption o id) : g.label? id = g'.label? id := by
  rw [caption_eq hids, caption_eq hids] at h
  rw [contains_eq_isSome_label?, Option.isSome_iff_exists] at hid hid'
  obtain ⟨label, hlabel⟩ := hid
  obtain ⟨label', hlabel'⟩ := hid'
  rw [hlabel, hlabel'] at h ⊢
  exact congrArg some (List.append_cancel_left h)

/-- **A drawing determines the derivation**, up to the number of its next node: the nodes with their
labels, the links, and the box around an existing node. The labels are arbitrary, and the numbers
are shown on all nodes or on none. -/
theorem draw_determines_nodes (hg : g.IsForest) (hg' : g'.IsForest)
    (hids : o.resolved.showIds = false ∨ o.resolved.showTerminalIds = true)
    {highlight highlight' : Option NodeId}
    (h : g.draw { o with highlight := highlight } = g'.draw { o with highlight := highlight' }) :
    g.ids = g'.ids ∧ (∀ id, g.label? id = g'.label? id) ∧ (∀ id, g.parent? id = g'.parent? id) ∧
      g.links = g'.links ∧
      ∀ id, g.contains id = true → (highlight = some id ↔ highlight' = some id) := by
  have hstatements := statements_eq_of_draw_eq h
  have hnodes := ids_eq_of_statements_eq hstatements
  have hlinks := links_eq_of_statements_eq hstatements
  have hcontains : ∀ id, g.contains id = g'.contains id := by
    intro id
    rw [Bool.eq_iff_iff, ← mem_ids, ← mem_ids, hnodes]
  refine ⟨hnodes, fun id => ?_, fun id => Option.ext fun parent => ?_, hlinks,
    fun id hid => (caption_eq_of_statements_eq hstatements hid).2⟩
  · cases hid : g.contains id with
    | true =>
      exact label?_eq_of_caption_eq hids hid (hcontains id ▸ hid)
        (caption_eq_of_statements_eq hstatements hid).1
    | false =>
      have hid' := hcontains id ▸ hid
      rw [contains_eq_isSome_label?, Option.isSome_eq_false_iff, Option.isNone_iff_eq_none]
        at hid hid'
      rw [hid, hid']
  · rw [← mem_links hg.nodup, ← mem_links hg'.nodup, hlinks]

/-- A label that looks like the end of its own line and the start of another one. -/
def forgedLabel : Text := "a\" shape=box]\n1 [label=\"b\\".toList

/-- A node that is gone leaves no trace in the drawing, and neither does a box around it. -/
theorem draw_determines_nodes_of_forgedLabel :
    let g := play [.newNode forgedLabel] empty
    let g' := play [.newNode forgedLabel, .newNode "b".toList, .link 0 1, .delete 1] empty
    g ≠ g' ∧ g.IsForest ∧ g'.IsForest ∧
      g.draw (.ofMode .full none) = g'.draw (.ofMode .full (some 1)) ∧
      g.ids = g'.ids ∧ ∀ id, g.label? id = g'.label? id := by
  intro g g'
  have hg : g.IsForest := Reachable.isForest ⟨_, rfl⟩
  have hg' : g'.IsForest := Reachable.isForest ⟨_, rfl⟩
  have hdraw : g.draw (.ofMode .full none) = g'.draw (.ofMode .full (some 1)) := by decide +kernel
  obtain ⟨hids, hlabels, -⟩ := @draw_determines_nodes g g' (.ofMode .full none) hg hg' (Or.inr rfl)
    none (some 1) hdraw
  exact ⟨by decide +kernel, hg, hg', hdraw, hids, hlabels⟩

/-- With numbers on placeholders only, a terminal can pass for a placeholder. -/
example : (play [.newNode "<s>".toList] empty).draw (.ofMode .ids none) =
    (play [.newNode "0: <s>".toList] empty).draw (.ofMode .ids none) := by
  decide +kernel

end Derivation

end GrammarTree
