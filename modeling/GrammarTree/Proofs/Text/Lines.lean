import GrammarTree.Text.Blank
import Mathlib.Data.List.Basic

/-!
# Leaving lines out of a text

A line together with the break that ends it is a *chunk*. The chunks make up the whole text, so that
lines are left out of a text by leaving out their chunks. What is left need not have the remaining
lines as its lines: when a line between a carriage return and a line feed goes, the two become one
break, and an empty line goes with it. This file proves that nothing else can happen.

So the lines of a text with lines left out are compared with the remaining lines up to empty lines,
by filtering both. Any test that drops the empty lines will do, and the scripts of a session have
one: a blank line holds no command.

The proofs go by chunks. A chunk with a break in front of any text gives its own line and then the
lines of the text, of which the first may be missing if it is empty. Putting chunks together is then
an induction over their list.

What is here:

* `Text.chunks`, with `Text.flatten_chunks` and `Text.lines_eq_map_chunks`;
* `Text.lines_ofLines`: lines that are written are given back;
* `Text.withoutLines`, a text without the lines of some numbers;
* `Text.filter_lines_withoutLines`: its lines, apart from those that are empty.
-/

set_option autoImplicit false

namespace GrammarTree

namespace Text

/-! ## Chunks -/

/-- The lines of a text, each with the break that ends it. -/
def chunks : Text → List Text
  | [] => []
  | '\r' :: '\n' :: t => ['\r', '\n'] :: chunks t
  | c :: t =>
    if isLineBreak c then [c] :: chunks t
    else match chunks t with
      | [] => [[c]]
      | l :: ls => (c :: l) :: ls

/-- The line of a chunk: what stands before its break. -/
def content (chunk : Text) : Text := chunk.takeWhile fun c => !isLineBreak c

theorem flatten_chunks (t : Text) : (chunks t).flatten = t := by
  fun_induction chunks t with
  | case1 => rfl
  | case2 t ih => rw [List.flatten_cons, ih]; rfl
  | case3 c t _ hbreak ih => rw [List.flatten_cons, ih]; rfl
  | case4 c t _ hbreak hnil ih =>
    rw [hnil] at ih
    rw [← ih]
    rfl
  | case5 c t _ hbreak l ls hcons ih =>
    rw [hcons] at ih
    rw [← ih]
    rfl

/-- A character that is no break belongs to the line that follows it. -/
theorem lines_cons {c : Char} (hc : isLineBreak c = false) (t : Text) :
    lines (c :: t) = match lines t with
      | [] => [[c]]
      | l :: ls => (c :: l) :: ls := by
  rw [lines]
  · exact if_neg (Bool.eq_false_iff.1 hc)
  · rintro _ rfl rfl
    exact absurd hc (by decide)

theorem content_cons {c : Char} (hc : isLineBreak c = false) (chunk : Text) :
    content (c :: chunk) = c :: content chunk := by
  rw [content, List.takeWhile_cons, hc]
  rfl

theorem lines_eq_map_chunks (t : Text) : t.lines = (chunks t).map content := by
  fun_induction chunks t with
  | case1 => rfl
  | case2 t ih =>
    rw [lines, ih]
    rfl
  | case3 c t hreturn hbreak ih =>
    rw [lines, if_pos hbreak, ih, List.map_cons, content, List.takeWhile_cons, hbreak]
    · rfl
    · exact hreturn
  | case4 c t _ hbreak hnil ih =>
    rw [Bool.not_eq_true] at hbreak
    rw [lines_cons hbreak, ih, hnil, List.map_nil, List.map_singleton, content_cons hbreak]
    rfl
  | case5 c t _ hbreak l ls hcons ih =>
    rw [Bool.not_eq_true] at hbreak
    rw [lines_cons hbreak, ih, hcons, List.map_cons, List.map_cons, content_cons hbreak]

/-! ## Chunks put together again

Chunks that were taken out of different places of a text come to stand side by side. What is kept of
their origin is that all of them, the last one aside, end in a break, and that what has no break at
its end has none at all. -/

/-- A chunk whose line is ended by a break. -/
inductive EndsLine : Text → Prop where
  /-- A carriage return and a line feed are one break. -/
  | returnFeed : EndsLine ['\r', '\n']
  /-- Every other break is one character. -/
  | single {c : Char} (hc : isLineBreak c = true) : EndsLine [c]
  /-- The line stands in front of the break. -/
  | cons {c : Char} {chunk : Text} (hc : isLineBreak c = false) (hchunk : EndsLine chunk) :
    EndsLine (c :: chunk)

theorem endsLine_or_of_mem_chunks {t chunk : Text} (h : chunk ∈ chunks t) :
    EndsLine chunk ∨ ∀ c ∈ chunk, isLineBreak c = false := by
  fun_induction chunks t generalizing chunk with
  | case1 => cases h
  | case2 t ih =>
    rcases List.mem_cons.1 h with rfl | h
    · exact Or.inl .returnFeed
    · exact ih h
  | case3 c t _ hbreak ih =>
    rcases List.mem_cons.1 h with rfl | h
    · exact Or.inl (.single hbreak)
    · exact ih h
  | case4 c t _ hbreak hnil ih =>
    rw [Bool.not_eq_true] at hbreak
    rw [List.mem_singleton.1 h]
    exact Or.inr (by simpa using hbreak)
  | case5 c t _ hbreak l ls hcons ih =>
    rw [Bool.not_eq_true] at hbreak
    rw [hcons] at ih
    rcases List.mem_cons.1 h with rfl | h
    · rcases ih (List.mem_cons_self ..) with hl | hl
      · exact Or.inl (.cons hbreak hl)
      · exact Or.inr (List.forall_mem_cons.2 ⟨hbreak, hl⟩)
    · exact ih (List.mem_cons_of_mem _ h)

/-- Only the last chunk may be without a break. -/
theorem pairwise_chunks (t : Text) : (chunks t).Pairwise fun chunk _ => EndsLine chunk := by
  fun_induction chunks t with
  | case1 => exact .nil
  | case2 t ih => exact List.pairwise_cons.2 ⟨fun _ _ => .returnFeed, ih⟩
  | case3 c t _ hbreak ih => exact List.pairwise_cons.2 ⟨fun _ _ => .single hbreak, ih⟩
  | case4 c t _ hbreak hnil ih => exact List.pairwise_singleton ..
  | case5 c t _ hbreak l ls hcons ih =>
    rw [Bool.not_eq_true] at hbreak
    rw [hcons, List.pairwise_cons] at ih
    exact List.pairwise_cons.2 ⟨fun next hnext => .cons hbreak (ih.1 next hnext), ih.2⟩

/-- A chunk with a break gives its line; the break may swallow an empty line behind it. -/
theorem EndsLine.lines_append {chunk : Text} (h : EndsLine chunk) (rest : Text) :
    ∃ ls, lines (chunk ++ rest) = content chunk :: ls ∧
      (lines rest = ls ∨ lines rest = [] :: ls) := by
  induction h with
  | returnFeed => exact ⟨lines rest, rfl, Or.inl rfl⟩
  | @single c hc =>
    have hcontent : content [c] = [] := by rw [content, List.takeWhile_cons, hc]; rfl
    rw [hcontent, List.singleton_append]
    by_cases hfeed : ∃ tail, c = '\r' ∧ rest = '\n' :: tail
    · obtain ⟨tail, rfl, rfl⟩ := hfeed
      exact ⟨lines tail, rfl, Or.inr rfl⟩
    · refine ⟨lines rest, ?_, Or.inl rfl⟩
      rw [lines, if_pos hc]
      rintro tail rfl rfl
      exact hfeed ⟨tail, rfl, rfl⟩
  | @cons c chunk hc _ ih =>
    obtain ⟨ls, hlines, hrest⟩ := ih
    refine ⟨ls, ?_, hrest⟩
    rw [List.cons_append, lines_cons hc, hlines, content_cons hc]

theorem lines_of_forall {t : Text} (h : ∀ c ∈ t, isLineBreak c = false) (hne : t ≠ []) :
    lines t = [content t] := by
  induction t with
  | nil => exact absurd rfl hne
  | cons c t ih =>
    obtain ⟨hc, ht⟩ := List.forall_mem_cons.1 h
    rw [lines_cons hc, content_cons hc]
    cases t with
    | nil => rfl
    | cons d t => rw [ih ht (List.cons_ne_nil _ _)]

/-- A line without breaks in front of a line feed is one line. -/
theorem lines_append_newline {l : Text} (h : ∀ c ∈ l, isLineBreak c = false) (t : Text) :
    lines (l ++ '\n' :: t) = l :: lines t := by
  induction l with
  | nil => rfl
  | cons c l ih =>
    obtain ⟨hc, hl⟩ := List.forall_mem_cons.1 h
    rw [List.cons_append, lines_cons hc, ih hl]

/-- Lines without breaks that are written are given back. -/
theorem lines_ofLines {ls : List Text} (h : ∀ l ∈ ls, ∀ c ∈ l, isLineBreak c = false) :
    (ofLines ls).lines = ls := by
  induction ls with
  | nil => rfl
  | cons l ls ih =>
    obtain ⟨hl, hls⟩ := List.forall_mem_cons.1 h
    have hfirst : ofLines (l :: ls) = l ++ '\n' :: ofLines ls := by
      rw [ofLines, List.flatMap_cons, List.append_assoc]
      rfl
    rw [hfirst, lines_append_newline hl, ih hls]

/-- Apart from empty lines, chunks that are put together have the lines that they had. -/
theorem filter_lines_flatten {p : Text → Bool} (hp : p [] = false) {cs : List Text}
    (hends : cs.Pairwise fun chunk _ => EndsLine chunk)
    (hforms : ∀ chunk ∈ cs, EndsLine chunk ∨ ∀ c ∈ chunk, isLineBreak c = false) :
    (lines cs.flatten).filter p = (cs.map content).filter p := by
  induction cs with
  | nil => rfl
  | cons chunk cs ih =>
    obtain ⟨hchunk, hforms⟩ := List.forall_mem_cons.1 hforms
    obtain ⟨hfirst, hends⟩ := List.pairwise_cons.1 hends
    have hrest := ih hends hforms
    rw [List.flatten_cons, List.map_cons]
    by_cases hbreak : EndsLine chunk
    · obtain ⟨ls, hlines, hswallowed⟩ := hbreak.lines_append cs.flatten
      have hls : ls.filter p = (lines cs.flatten).filter p := by
        rcases hswallowed with heq | heq
        · rw [heq]
        · rw [heq, List.filter_cons_of_neg (by rw [hp]; exact Bool.false_ne_true)]
      rw [hlines, List.filter_cons, List.filter_cons, hls, hrest]
    · -- A chunk without a break is the last one.
      have hlast : cs = [] := by
        cases cs with
        | nil => rfl
        | cons next cs => exact absurd (hfirst next (List.mem_cons_self ..)) hbreak
      subst hlast
      by_cases hne : chunk = []
      · subst hne
        rw [List.map_nil, List.filter_singleton, content, List.takeWhile_nil, hp]
        rfl
      · rw [List.flatten_nil, List.append_nil, lines_of_forall (hchunk.resolve_left hbreak) hne,
          List.map_nil]

/-! ## Lines left out -/

/-- A text without the lines that have some numbers, counted from 1, and without their breaks. -/
def withoutLines (numbers : List Nat) (t : Text) : Text :=
  (((chunks t).zipIdx 1).filter fun item => item.2 ∉ numbers).flatMap Prod.fst

theorem withoutLines_nil (t : Text) : t.withoutLines [] = t := by
  simp [withoutLines, List.flatMap_def, flatten_chunks]

/-- **Leaving lines out leaves the others**, apart from empty lines. -/
theorem filter_lines_withoutLines {p : Text → Bool} (hp : p [] = false) (numbers : List Nat)
    (t : Text) :
    (t.withoutLines numbers).lines.filter p =
      (((t.lines.zipIdx 1).filter fun item => item.2 ∉ numbers).map Prod.fst).filter p := by
  have hsublist : ((((chunks t).zipIdx 1).filter fun item => item.2 ∉ numbers).map
      Prod.fst).Sublist (chunks t) := by
    have hzip := (List.filter_sublist (p := fun item : Text × Nat => item.2 ∉ numbers)
      (l := (chunks t).zipIdx 1)).map Prod.fst
    rwa [List.zipIdx_map_fst] at hzip
  rw [withoutLines, List.flatMap_def, filter_lines_flatten hp
    ((pairwise_chunks t).sublist hsublist)
    fun chunk hchunk => endsLine_or_of_mem_chunks (hsublist.subset hchunk)]
  refine congrArg (List.filter p) ?_
  rw [lines_eq_map_chunks, List.zipIdx_map, List.filter_map, List.map_map, List.map_map]
  rfl

end Text

end GrammarTree
