import GrammarTree.Proofs.Text.Lines
import Mathlib.Data.List.TakeWhile

/-!
# Rows against lines

Rows end at line feeds only, and lines end at every break. A text that ends in a line feed has an
empty last row, which is not shown. This file proves when the rows that are shown and the lines are
the same: when every line but the last one is ended by a line feed.

Both are compared with the chunks of the text, the lines with their breaks. There is a line for each
chunk. There is a row for each chunk that ends in a line feed, while a chunk with another break at
its end shares its row with the next chunk. So there are never more rows than lines, and fewer as
soon as one line in front of the last has another break.

What is here:

* `Text.shownRows`, with `Text.shownRows_ofLines`;
* `Text.EndsInFeeds`, and its two sides: `Text.EndsInFeeds.shownRows_eq`, the rows are the lines,
  and `Text.endsInFeeds_of_length_eq`, otherwise there are fewer rows.
-/

set_option autoImplicit false

namespace GrammarTree

namespace Text

/-! ## Shown rows -/

/-- The pieces between line feeds, without an empty piece at the end. -/
def shownRows (t : Text) : List Text :=
  if t.rows.getLast? = some [] then t.rows.dropLast else t.rows

variable {row front rest : Text}

theorem shownRows_append_newline (hrow : '\n' ∉ row) (rest : Text) :
    shownRows (row ++ '\n' :: rest) = row :: shownRows rest := by
  have hrows : rows (row ++ '\n' :: rest) = row :: rest.rows :=
    List.splitOn_append_cons_self_of_not_mem hrow rest
  have hne : rest.rows ≠ [] := List.splitOn_ne_nil _ _
  rw [shownRows, shownRows, hrows, List.getLast?_cons_of_ne_nil hne,
    List.dropLast_cons_of_ne_nil hne]
  split <;> rfl

theorem shownRows_of_notMem (hrow : '\n' ∉ row) (hne : row ≠ []) : shownRows row = [row] := by
  have hrows : row.rows = [row] := List.splitOn_eq_singleton hrow
  rw [shownRows, hrows, if_neg]
  rw [List.getLast?_singleton, Option.some_inj]
  exact hne

theorem shownRows_ofLines {ls : List Text} (hls : ∀ l ∈ ls, '\n' ∉ l) :
    shownRows (ofLines ls) = ls := by
  induction ls with
  | nil => rfl
  | cons l ls ih =>
    obtain ⟨hl, hls⟩ := List.forall_mem_cons.1 hls
    rw [ofLines, List.flatMap_cons, List.append_assoc]
    refine (shownRows_append_newline hl _).trans (congrArg _ ?_)
    exact ih hls

/-- What stands in front of a text without a line feed makes its first row longer. -/
theorem length_shownRows_append (hfront : '\n' ∉ front) (hne : rest ≠ []) :
    (shownRows (front ++ rest)).length = (shownRows rest).length := by
  by_cases hfeed : '\n' ∈ rest
  · obtain ⟨row, rest', rfl, hrow⟩ := List.eq_append_cons_of_mem hfeed
    have hjoined : '\n' ∉ front ++ row := by
      rw [List.mem_append, not_or]
      exact ⟨hfront, hrow⟩
    rw [← List.append_assoc, shownRows_append_newline hjoined, shownRows_append_newline hrow,
      List.length_cons, List.length_cons]
  · have hjoined : '\n' ∉ front ++ rest := by
      rw [List.mem_append, not_or]
      exact ⟨hfront, hfeed⟩
    rw [shownRows_of_notMem hjoined (List.append_ne_nil_of_right_ne_nil _ hne),
      shownRows_of_notMem hfeed hne, List.length_singleton, List.length_singleton]

/-! ## Chunks and line feeds

A line feed may stand behind a carriage return, and then it is the second half of one break. A chunk
without its line feed is therefore not yet its line: the carriage return is still there, at the end
of the row. -/

/-- A chunk without the line feed at its end, if it has one. -/
def withoutFeed (chunk : Text) : Text :=
  if chunk.getLast? = some '\n' then chunk.dropLast else chunk

theorem EndsLine.exists_tail {chunk : Text} (h : EndsLine chunk) :
    ∃ tail, (∀ c ∈ tail, isLineBreak c = true ∧ c ≠ '\n') ∧
      (chunk = content chunk ++ tail ∨ chunk = content chunk ++ tail ++ ['\n']) := by
  induction h with
  | returnFeed => exact ⟨['\r'], List.forall_mem_singleton.2 ⟨rfl, by decide⟩, Or.inr rfl⟩
  | @single c hc =>
    have hcontent : content [c] = [] := by rw [content, List.takeWhile_cons, hc]; rfl
    rw [hcontent]
    by_cases hfeed : c = '\n'
    · exact ⟨[], by simp, Or.inr (by rw [hfeed]; rfl)⟩
    · exact ⟨[c], by simpa using ⟨hc, hfeed⟩, Or.inl rfl⟩
  | @cons c chunk hc _ ih =>
    obtain ⟨tail, htail, hchunk⟩ := ih
    refine ⟨tail, htail, ?_⟩
    rw [content_cons hc, List.cons_append, List.cons_append]
    exact hchunk.imp (congrArg _) (congrArg _)

theorem isLineBreak_of_mem_content {c : Char} {chunk : Text} (h : c ∈ content chunk) :
    isLineBreak c = false := by
  have := List.all_takeWhile (p := fun c => !isLineBreak c) (l := chunk)
  simpa using List.all_eq_true.1 this c h

theorem newline_notMem_content (chunk : Text) : '\n' ∉ content chunk := fun h =>
  Bool.false_ne_true (isLineBreak_of_mem_content h).symm

theorem withoutFeed_of_notMem {chunk : Text} (h : '\n' ∉ chunk) : withoutFeed chunk = chunk :=
  if_neg fun hlast => h (List.mem_of_getLast? hlast)

theorem withoutFeed_concat (chunk : Text) : withoutFeed (chunk ++ ['\n']) = chunk := by
  rw [withoutFeed, if_pos List.getLast?_concat, List.dropLast_concat]

theorem eq_withoutFeed_append {chunk : Text} (h : chunk.getLast? = some '\n') :
    chunk = withoutFeed chunk ++ ['\n'] := by
  obtain ⟨front, rfl⟩ := List.getLast?_eq_some_iff.1 h
  rw [withoutFeed_concat]

/-- A chunk without its line feed is its line, and maybe a break of another kind. -/
theorem exists_withoutFeed_eq {t chunk : Text} (h : chunk ∈ chunks t) :
    ∃ tail, withoutFeed chunk = content chunk ++ tail ∧
      ∀ c ∈ tail, isLineBreak c = true ∧ c ≠ '\n' := by
  rcases endsLine_or_of_mem_chunks h with hends | hplain
  · obtain ⟨tail, htail, hchunk⟩ := hends.exists_tail
    refine ⟨tail, ?_, htail⟩
    have hfeed : '\n' ∉ content chunk ++ tail := by
      rw [List.mem_append, not_or]
      exact ⟨newline_notMem_content chunk, fun hmem => (htail _ hmem).2 rfl⟩
    rcases hchunk with heq | heq
    · rw [← heq] at hfeed ⊢
      exact withoutFeed_of_notMem hfeed
    · refine Eq.trans (congrArg withoutFeed heq) ?_
      exact withoutFeed_concat _
  · have hcontent : content chunk = chunk :=
      List.takeWhile_eq_self_iff.2 fun c hc => by rw [hplain c hc]; rfl
    refine ⟨[], ?_, by simp⟩
    rw [hcontent, List.append_nil]
    exact withoutFeed_of_notMem fun hfeed => Bool.false_ne_true (hplain _ hfeed).symm

theorem newline_notMem_withoutFeed {t chunk : Text} (h : chunk ∈ chunks t) :
    '\n' ∉ withoutFeed chunk := by
  obtain ⟨tail, heq, htail⟩ := exists_withoutFeed_eq h
  rw [heq, List.mem_append, not_or]
  exact ⟨newline_notMem_content chunk, fun hmem => (htail _ hmem).2 rfl⟩

theorem forall_mem_chunks_ne_nil (t : Text) : ∀ chunk ∈ chunks t, chunk ≠ [] := by
  fun_induction chunks t with
  | case1 => exact fun _ h => absurd h List.not_mem_nil
  | case2 t ih => exact List.forall_mem_cons.2 ⟨List.cons_ne_nil _ _, ih⟩
  | case3 c t _ hbreak ih => exact List.forall_mem_cons.2 ⟨List.cons_ne_nil _ _, ih⟩
  | case4 c t _ hbreak hnil ih => exact List.forall_mem_singleton.2 (List.cons_ne_nil _ _)
  | case5 c t _ hbreak l ls hcons ih =>
    rw [hcons] at ih
    exact List.forall_mem_cons.2 ⟨List.cons_ne_nil _ _, fun next hnext =>
      ih next (List.mem_cons_of_mem _ hnext)⟩

/-! ## Rows and chunks

Only the number of rows is followed for chunks that share a row. What stands in such a row is of no
interest, since the count alone shows that rows and lines differ. -/

/-- A text with no line feed but one at its end, and not empty. -/
structure IsOneRow (chunk : Text) : Prop where
  /-- There is something, if only the line feed. -/
  ne_nil : chunk ≠ []
  /-- No line feed stands in front of the end. -/
  newline_notMem : '\n' ∉ withoutFeed chunk

theorem isOneRow_of_mem_chunks {t chunk : Text} (h : chunk ∈ chunks t) : IsOneRow chunk :=
  ⟨forall_mem_chunks_ne_nil t chunk h, newline_notMem_withoutFeed h⟩

variable {cs : List Text} {chunk next : Text}

theorem IsOneRow.notMem_of_ne (h : IsOneRow chunk) (hfeed : ¬ chunk.getLast? = some '\n') :
    '\n' ∉ chunk := by
  have hrow := h.newline_notMem
  rwa [withoutFeed, if_neg hfeed] at hrow

/-- A chunk with a line feed is a row of its own. -/
theorem shownRows_flatten_cons (h : IsOneRow chunk) (hfeed : chunk.getLast? = some '\n')
    (cs : List Text) :
    shownRows (chunk :: cs).flatten = withoutFeed chunk :: shownRows cs.flatten := by
  have hchunk : (chunk :: cs).flatten = withoutFeed chunk ++ '\n' :: cs.flatten := by
    rw [List.flatten_cons, List.append_cons, ← eq_withoutFeed_append hfeed]
  rw [hchunk, shownRows_append_newline h.newline_notMem]

/-- A chunk without a line feed has a row with the chunk behind it. -/
theorem length_shownRows_flatten_cons (h : IsOneRow chunk)
    (hfeed : ¬ chunk.getLast? = some '\n') (hnext : IsOneRow next) (cs : List Text) :
    (shownRows (chunk :: next :: cs).flatten).length = (shownRows (next :: cs).flatten).length := by
  have hrest : (next :: cs).flatten ≠ [] := List.append_ne_nil_of_left_ne_nil hnext.ne_nil _
  rw [List.flatten_cons, length_shownRows_append (h.notMem_of_ne hfeed) hrest]

/-- Chunks that end in line feeds, the last one aside, are shown as one row each. -/
theorem shownRows_flatten (hcs : ∀ chunk ∈ cs, IsOneRow chunk)
    (hfeeds : ∀ chunk ∈ cs.dropLast, chunk.getLast? = some '\n') :
    shownRows cs.flatten = cs.map withoutFeed := by
  induction cs with
  | nil => rfl
  | cons chunk cs ih =>
    obtain ⟨hchunk, hcs⟩ := List.forall_mem_cons.1 hcs
    cases cs with
    | nil =>
      by_cases hfeed : chunk.getLast? = some '\n'
      · rw [shownRows_flatten_cons hchunk hfeed]
        rfl
      · rw [List.map_singleton, List.flatten_singleton, withoutFeed, if_neg hfeed,
          shownRows_of_notMem (hchunk.notMem_of_ne hfeed) hchunk.ne_nil]
    | cons next cs =>
      rw [List.dropLast_cons_cons, List.forall_mem_cons] at hfeeds
      rw [shownRows_flatten_cons hchunk hfeeds.1, ih hcs hfeeds.2]
      rfl

theorem length_shownRows_flatten_le (hcs : ∀ chunk ∈ cs, IsOneRow chunk) :
    (shownRows cs.flatten).length ≤ cs.length := by
  induction cs with
  | nil => exact Nat.le_refl 0
  | cons chunk cs ih =>
    obtain ⟨hchunk, hcs⟩ := List.forall_mem_cons.1 hcs
    by_cases hfeed : chunk.getLast? = some '\n'
    · rw [shownRows_flatten_cons hchunk hfeed]
      exact Nat.succ_le_succ (ih hcs)
    · cases cs with
      | nil =>
        rw [List.flatten_singleton,
          shownRows_of_notMem (hchunk.notMem_of_ne hfeed) hchunk.ne_nil]
      | cons next cs =>
        rw [length_shownRows_flatten_cons hchunk hfeed (List.forall_mem_cons.1 hcs).1]
        exact Nat.le_succ_of_le (ih hcs)

/-- A break that is no line feed joins its line with the next one to one row. -/
theorem forall_feeds_of_length_le (hcs : ∀ chunk ∈ cs, IsOneRow chunk)
    (hlength : cs.length ≤ (shownRows cs.flatten).length) :
    ∀ chunk ∈ cs.dropLast, chunk.getLast? = some '\n' := by
  induction cs with
  | nil => exact fun _ h => absurd h List.not_mem_nil
  | cons chunk cs ih =>
    obtain ⟨hchunk, hcs⟩ := List.forall_mem_cons.1 hcs
    cases cs with
    | nil => exact fun _ h => absurd h List.not_mem_nil
    | cons next cs =>
      by_cases hfeed : chunk.getLast? = some '\n'
      · rw [shownRows_flatten_cons hchunk hfeed] at hlength
        rw [List.dropLast_cons_cons, List.forall_mem_cons]
        exact ⟨hfeed, ih hcs (Nat.le_of_succ_le_succ hlength)⟩
      · rw [length_shownRows_flatten_cons hchunk hfeed (List.forall_mem_cons.1 hcs).1] at hlength
        exact absurd (length_shownRows_flatten_le hcs) (Nat.not_le_of_lt hlength)

/-! ## Rows and lines -/

/-- Whether a line feed ends every line but the last one. -/
def EndsInFeeds (t : Text) : Prop := ∀ chunk ∈ (chunks t).dropLast, chunk.getLast? = some '\n'

theorem EndsInFeeds.shownRows_eq {t : Text} (h : t.EndsInFeeds) :
    shownRows t = (chunks t).map withoutFeed := by
  rw [← shownRows_flatten (fun _ => isOneRow_of_mem_chunks) h, flatten_chunks]

theorem endsInFeeds_of_length_eq {t : Text} (h : t.lines.length = (shownRows t).length) :
    t.EndsInFeeds := by
  refine forall_feeds_of_length_le (fun _ => isOneRow_of_mem_chunks) (Nat.le_of_eq ?_)
  rw [flatten_chunks, ← h, lines_eq_map_chunks, List.length_map]

end Text

end GrammarTree
