import GrammarTree.Proofs.Grammar.Pieces
import Mathlib.Data.List.Basic

/-!
# Splitting pipes

Whether a pipe splits a right-hand side is a matter of the characters next to it, and what stands
between two pipes that split is one alternative. This file proves that the cutting of a right-hand
side finds exactly these pipes, whatever runs of pipes and backslashes the side holds. Two pipes
next to each other never split, so that no piece is empty but the first and the last.

The specification knows places: a pipe of the text splits if the characters at the places beside it
allow it. The cutting knows only the character in front of what is left. The two are connected by
the place where one piece ends and the next begins, which is counted from the lengths of the pieces,
and the induction moves all places by one.

What is here:

* `Pieces.SplitsAt`, the pipes that split, and `Pieces.isJoint_cut_iff`: they are the pipes between
  the pieces;
* `Pieces.IsFirstPiece`, what stands in front of the first of them;
* `Pieces.withoutLastEmpty?`, one round of dropping an empty last piece, and
  `Pieces.withoutLastEmpty?_cut`: there is no second round;
* `Pieces.unescape_eq`, a text without its escapes, by the places of the backslashes;
* `alternativesOf_cut_at_splitting_pipes`, which says all of this of the alternatives of a side.
-/

set_option autoImplicit false

namespace GrammarTree

namespace Pieces

/-! ## Places

The character in front of a place is that of the text, except at the first place, where it comes
from outside. With it a statement about the rest of a text is one about the text. -/

/-- A pipe of a text that splits it. -/
structure SplitsAt (t : Text) (i : Nat) : Prop where
  /-- There is a pipe at this place. -/
  pipe : t[i]? = some '|'
  /-- Directly behind it is no pipe. -/
  behind : t[i + 1]? ≠ some '|'
  /-- Directly in front of it is neither a pipe nor a backslash. -/
  front : ∀ j, j + 1 = i → t[j]? ≠ some '|' ∧ t[j]? ≠ some '\\'

/-- A place of a pipe between two pieces, in the text that they make up. -/
def IsJoint (pieces : List Text) (i : Nat) : Prop :=
  ∃ front back, front ≠ [] ∧ back ≠ [] ∧ pieces = front ++ back ∧
    i = (List.intercalate ['|'] front).length

/-- The character in front of a place of a text, where `before` is the one in front of the text. -/
def charBefore (before : Option Char) (t : Text) : Nat → Option Char
  | 0 => before
  | i + 1 => t[i]?

/-- A pipe that splits a text with the character `before` in front of it. -/
def SplitsBehind (before : Option Char) (t : Text) (i : Nat) : Prop :=
  t[i]? = some '|' ∧ splits (charBefore before t i) t[i + 1]? = true

variable {t : Text} {i : Nat}

theorem splitsBehind_none_iff : SplitsBehind none t i ↔ SplitsAt t i := by
  cases i with
  | zero =>
    simp only [SplitsBehind, charBefore, splits]
    constructor
    · rintro ⟨hpipe, hbehind⟩
      exact ⟨hpipe, by simpa using hbehind, fun j hj => absurd hj (Nat.succ_ne_zero j)⟩
    · intro h
      exact ⟨h.pipe, by simpa using h.behind⟩
  | succ i =>
    simp only [SplitsBehind, charBefore, splits, Bool.and_eq_true, bne_iff_ne]
    constructor
    · rintro ⟨hpipe, ⟨hpipe', hslash⟩, hbehind⟩
      refine ⟨hpipe, hbehind, fun j hj => ?_⟩
      obtain rfl : j = i := by omega
      exact ⟨hpipe', hslash⟩
    · intro h
      exact ⟨h.pipe, h.front i rfl, h.behind⟩

/-! ## Joints -/

theorem isJoint_cons {piece : Text} {pieces : List Text} :
    IsJoint (piece :: pieces) i ↔
      (pieces ≠ [] ∧ i = piece.length) ∨ ∃ j, IsJoint pieces j ∧ i = piece.length + 1 + j := by
  constructor
  · rintro ⟨front, back, hfront, hback, heq, rfl⟩
    obtain ⟨first, front, rfl⟩ := List.exists_cons_of_ne_nil hfront
    rw [List.cons_append, List.cons.injEq] at heq
    obtain ⟨rfl, rfl⟩ := heq
    cases front with
    | nil => exact Or.inl ⟨hback, by rw [List.intercalate_singleton]⟩
    | cons next front =>
      refine Or.inr ⟨_, ⟨next :: front, back, List.cons_ne_nil _ _, hback, rfl, rfl⟩, ?_⟩
      rw [List.intercalate_cons_cons, List.length_append, List.length_append, List.length_singleton]
  · rintro (⟨hne, rfl⟩ | ⟨j, ⟨front, back, hfront, hback, rfl, rfl⟩, rfl⟩)
    · exact ⟨[piece], pieces, List.cons_ne_nil _ _, hne, rfl, by rw [List.intercalate_singleton]⟩
    · obtain ⟨next, front, rfl⟩ := List.exists_cons_of_ne_nil hfront
      refine ⟨piece :: next :: front, back, List.cons_ne_nil _ _, hback, rfl, ?_⟩
      rw [List.intercalate_cons_cons, List.length_append, List.length_append, List.length_singleton]

/-- The pieces are joined at the pipes that split. -/
theorem isJoint_cutAfter_iff {before : Option Char} :
    IsJoint (cutAfter before t) i ↔ SplitsBehind before t i := by
  induction t generalizing before i with
  | nil =>
    rw [cutAfter, isJoint_cons]
    refine iff_of_false ?_ fun h => absurd h.1 (by simp)
    rintro (⟨hne, -⟩ | ⟨j, ⟨front, back, hfront, -, heq, -⟩, -⟩)
    · exact hne rfl
    · exact hfront (List.append_eq_nil_iff.1 heq.symm).1
  | cons c t ih =>
    have hsucc : ∀ j, SplitsBehind before (c :: t) (j + 1) ↔ SplitsBehind (some c) t j := by
      intro j
      cases j <;> exact Iff.rfl
    have hzero : SplitsBehind before (c :: t) 0 ↔
        (decide (c = '|') && splits before t.head?) = true := by
      simp [SplitsBehind, charBefore, List.head?_eq_getElem?]
    rw [cutAfter]
    split
    · rename_i hsplit
      rw [isJoint_cons]
      cases i with
      | zero => exact iff_of_true (Or.inl ⟨cutAfter_ne_nil _ _, rfl⟩) (hzero.2 hsplit)
      | succ j =>
        rw [hsucc, ← ih]
        constructor
        · rintro (⟨-, hj⟩ | ⟨k, hk, hj⟩)
          · cases hj
          · obtain rfl : j = k := by simpa [Nat.add_comm] using hj
            exact hk
        · intro hj
          exact Or.inr ⟨j, hj, by simp [Nat.add_comm]⟩
    · rename_i hsplit
      -- The character joins the first piece, so that every joint moves on by one.
      obtain ⟨piece, pieces, hcut⟩ := List.exists_cons_of_ne_nil (cutAfter_ne_nil (some c) t)
      have htail : ∀ j, IsJoint (piece :: pieces) j ↔ SplitsBehind (some c) t j := by
        intro j
        rw [← hcut]
        exact ih
      simp only [isJoint_cons] at htail
      rw [hcut, List.modifyHead_cons, isJoint_cons, List.length_cons]
      cases i with
      | zero =>
        refine iff_of_false ?_ fun h => hsplit (hzero.1 h)
        rintro (⟨-, hlength⟩ | ⟨j, -, hlength⟩) <;> omega
      | succ j =>
        rw [hsucc, ← htail]
        refine or_congr (and_congr_right fun _ => Nat.succ_inj) (exists_congr fun k => ?_)
        exact and_congr_right fun _ => by omega

theorem isJoint_cut_iff : IsJoint (cut t) i ↔ SplitsAt t i :=
  isJoint_cutAfter_iff.trans splitsBehind_none_iff

/-! ## Empty pieces

The definition drops all empty pieces at the end, one after the other. For the pieces of a text
there is never a second one: between two empty pieces at the end there would be two pipes next to
each other, and neither of them splits. -/

theorem length_intercalate_concat {front : List Text} (h : front ≠ []) (piece : Text) :
    (List.intercalate ['|'] (front ++ [piece])).length =
      (List.intercalate ['|'] front).length + 1 + piece.length := by
  induction front with
  | nil => exact absurd rfl h
  | cons first front ih =>
    cases front with
    | nil =>
      simp only [List.singleton_append, List.intercalate_cons_cons, List.intercalate_singleton,
        List.length_append, List.length_singleton]
    | cons next front =>
      have hrest := ih (List.cons_ne_nil _ _)
      simp only [List.cons_append, List.intercalate_cons_cons, List.length_append,
        List.length_singleton] at hrest ⊢
      omega

/-- Between two other pieces no piece is empty, because two pipes next to each other do not
split. -/
theorem ne_nil_of_cut_eq {front back : List Text} {piece : Text}
    (h : cut t = front ++ piece :: back) (hfront : front ≠ []) (hback : back ≠ []) :
    piece ≠ [] := by
  rintro rfl
  have hleft : SplitsAt t (List.intercalate ['|'] front).length :=
    isJoint_cut_iff.1 ⟨front, [] :: back, hfront, List.cons_ne_nil _ _, h, rfl⟩
  have hright : SplitsAt t ((List.intercalate ['|'] front).length + 1) :=
    isJoint_cut_iff.1 ⟨front ++ [[]], back, by simp, hback, by simp [h],
      (length_intercalate_concat hfront []).symm⟩
  exact (hright.front _ rfl).1 hleft.pipe

/-- The pieces without an empty last one; none when the last piece is not empty or is the only
one. -/
def withoutLastEmpty? (pieces : List Text) : Option (List Text) :=
  if 1 < pieces.length ∧ pieces.getLast? = some [] then some pieces.dropLast else none

theorem withoutLastEmpty?_eq_some_iff {pieces rest : List Text} :
    withoutLastEmpty? pieces = some rest ↔ rest ≠ [] ∧ pieces = rest ++ [[]] := by
  rw [withoutLastEmpty?]
  constructor
  · split
    · rintro ⟨⟩
      rename_i h
      obtain ⟨kept, rfl⟩ := List.getLast?_eq_some_iff.1 h.2
      rw [List.dropLast_concat]
      refine ⟨?_, rfl⟩
      rintro rfl
      exact absurd h.1 (by decide)
    · nofun
  · rintro ⟨hne, rfl⟩
    have hlength := List.length_pos_iff.2 hne
    rw [if_pos ⟨by simpa using hlength, List.getLast?_concat⟩, List.dropLast_concat]

theorem dropEmptyTail_concat_nil {kept : List Text} (h : kept ≠ []) :
    dropEmptyTail (kept ++ [[]]) = dropEmptyTail kept := by
  induction kept with
  | nil => exact absurd rfl h
  | cons piece kept ih =>
    cases kept with
    | nil => rfl
    | cons next kept =>
      have hrest := ih (List.cons_ne_nil _ _)
      rw [List.cons_append] at hrest
      rw [List.cons_append, List.cons_append, dropEmptyTail, hrest]
      rfl

theorem dropEmptyTail_concat {piece : Text} (h : piece ≠ []) (kept : List Text) :
    dropEmptyTail (kept ++ [piece]) = kept ++ [piece] := by
  induction kept with
  | nil => rfl
  | cons first kept ih =>
    obtain ⟨next, pieces, hpieces⟩ : ∃ next pieces, kept ++ [piece] = next :: pieces :=
      List.exists_cons_of_ne_nil (by simp)
    rw [hpieces] at ih
    rw [List.cons_append, hpieces, dropEmptyTail, ih]
    split
    · rename_i hnil
      rw [← hpieces, ← List.nil_append [[]]] at hnil
      exact absurd (List.append_inj' hnil rfl).2 (by simpa using h)
    · rfl

/-- Empty pieces are dropped in rounds, as long as the last of several pieces is empty. -/
theorem dropEmptyTail_eq (pieces : List Text) :
    dropEmptyTail pieces =
      match withoutLastEmpty? pieces with
      | none => pieces
      | some rest => dropEmptyTail rest := by
  cases hround : withoutLastEmpty? pieces with
  | some rest =>
    obtain ⟨hne, rfl⟩ := withoutLastEmpty?_eq_some_iff.1 hround
    exact dropEmptyTail_concat_nil hne
  | none =>
    rcases List.eq_nil_or_concat pieces with rfl | ⟨kept, piece, rfl⟩
    · rfl
    · rw [List.concat_eq_append] at hround ⊢
      by_cases hkept : kept = []
      · rw [hkept]
        rfl
      · refine dropEmptyTail_concat ?_ kept
        rintro rfl
        have hsome := withoutLastEmpty?_eq_some_iff.2 ⟨hkept, rfl⟩
        rw [hround] at hsome
        cases hsome

/-- There is at most one round for the pieces of a text. -/
theorem withoutLastEmpty?_cut {rest : List Text} (h : withoutLastEmpty? (cut t) = some rest) :
    withoutLastEmpty? rest = none := by
  obtain ⟨-, hcut⟩ := withoutLastEmpty?_eq_some_iff.1 h
  rw [Option.eq_none_iff_forall_ne_some]
  intro kept hround
  obtain ⟨hne, rfl⟩ := withoutLastEmpty?_eq_some_iff.1 hround
  rw [List.append_assoc] at hcut
  exact ne_nil_of_cut_eq hcut hne (List.cons_ne_nil _ _) rfl

theorem dropEmptyTail_cut (t : Text) :
    dropEmptyTail (cut t) = (withoutLastEmpty? (cut t)).getD (cut t) := by
  rw [dropEmptyTail_eq]
  cases hround : withoutLastEmpty? (cut t) with
  | none => rfl
  | some rest =>
    have hend := dropEmptyTail_eq rest
    rw [withoutLastEmpty?_cut hround] at hend
    exact hend

/-- Of the pieces that are kept, only the first may be empty. -/
theorem ne_nil_of_getElem?_dropEmptyTail_cut {k : Nat} {piece : Text} (hk : 0 < k)
    (h : (dropEmptyTail (cut t))[k]? = some piece) : piece ≠ [] := by
  rw [dropEmptyTail_cut] at h
  -- What is dropped stands behind all pieces that are kept.
  obtain ⟨dropped, hcut, hlast⟩ : ∃ dropped,
      cut t = (withoutLastEmpty? (cut t)).getD (cut t) ++ dropped ∧
        (dropped = [] → withoutLastEmpty? (cut t) = none) := by
    cases hround : withoutLastEmpty? (cut t) with
    | none => exact ⟨[], (List.append_nil _).symm, fun _ => rfl⟩
    | some rest => exact ⟨[[]], (withoutLastEmpty?_eq_some_iff.1 hround).2, nofun⟩
  generalize (withoutLastEmpty? (cut t)).getD (cut t) = kept at h hcut
  obtain ⟨hlength, rfl⟩ := List.getElem?_eq_some_iff.1 h
  have hkept := List.take_append_drop k kept
  rw [List.drop_eq_getElem_cons hlength] at hkept
  have hfront : kept.take k ≠ [] := by
    rw [Ne, List.take_eq_nil_iff, not_or]
    exact ⟨by omega, List.ne_nil_of_length_pos (by omega)⟩
  generalize kept[k] = piece at hkept ⊢
  generalize kept.take k = front at hkept hfront
  generalize kept.drop (k + 1) = back at hkept
  rw [← hkept, List.append_assoc, List.cons_append] at hcut
  by_cases hback : back ++ dropped = []
  · rintro rfl
    obtain ⟨-, rfl⟩ := List.append_eq_nil_iff.1 hback
    rw [hback] at hcut
    have hsome := withoutLastEmpty?_eq_some_iff.2 ⟨hfront, hcut⟩
    rw [hlast rfl] at hsome
    cases hsome
  · exact ne_nil_of_cut_eq hcut hfront hback

/-! ## The first piece -/

/-- The part of a text up to the first pipe that splits it; all of the text when none does. -/
structure IsFirstPiece (t piece : Text) : Prop where
  /-- The text starts with it. -/
  start : piece <+: t
  /-- No pipe in it splits the text. -/
  unsplit : ∀ i, i < piece.length → ¬ SplitsAt t i
  /-- It ends with the text or at a pipe that splits. -/
  stop : piece = t ∨ SplitsAt t piece.length

theorem isFirstPiece_of_cut {piece : Text} {pieces : List Text} (h : cut t = piece :: pieces) :
    IsFirstPiece t piece := by
  have hjoin := intercalate_cut t
  have hjoint : ∀ i, SplitsAt t i ↔ IsJoint (piece :: pieces) i := fun i => by
    rw [← h, isJoint_cut_iff]
  rw [h] at hjoin
  refine ⟨?_, fun i hi hsplit => ?_, ?_⟩
  · cases pieces with
    | nil => exact ⟨[], by rw [← hjoin, List.intercalate_singleton, List.append_nil]⟩
    | cons next pieces =>
      rw [List.intercalate_cons_cons, List.append_assoc] at hjoin
      exact ⟨_, hjoin⟩
  · rcases isJoint_cons.1 ((hjoint i).1 hsplit) with ⟨-, hlength⟩ | ⟨j, -, hlength⟩ <;> omega
  · cases pieces with
    | nil => exact Or.inl (by rw [← hjoin, List.intercalate_singleton])
    | cons next pieces =>
      exact Or.inr ((hjoint _).2 (isJoint_cons.2 (Or.inl ⟨List.cons_ne_nil _ _, rfl⟩)))

theorem IsFirstPiece.length_le {p q : Text} (hp : IsFirstPiece t p) (hq : IsFirstPiece t q) :
    q.length ≤ p.length := by
  rcases hp.stop with rfl | hsplit
  · exact hq.start.length_le
  · exact Nat.le_of_not_lt fun hlt => hq.unsplit _ hlt hsplit

/-- A text has only one first piece. -/
theorem IsFirstPiece.unique {p q : Text} (hp : IsFirstPiece t p) (hq : IsFirstPiece t q) :
    p = q :=
  (List.prefix_of_prefix_length_le hp.start hq.start (hq.length_le hp)).eq_of_length_le
    (hp.length_le hq)

/-! ## Escapes -/

/-- Whether a backslash stands at a place of a text, directly in front of a pipe. -/
def escapesAt (t : Text) (i : Nat) : Bool := t[i]? == some '\\' && t[i + 1]? == some '|'

theorem unescape_cons_eq (c : Char) (t : Text) :
    unescape (c :: t) =
      if c = '\\' ∧ t.head? = some '|' then unescape t else c :: unescape t := by
  split
  · rename_i h
    obtain ⟨rfl, hpipe⟩ := h
    obtain ⟨t, rfl⟩ := List.head?_eq_some_iff.1 hpipe
    rw [unescape, unescape]
    intro t' hpipe'
    exact absurd hpipe' (by decide)
  · rename_i h
    rw [unescape]
    rintro t' rfl rfl
    exact h ⟨rfl, rfl⟩

/-- Every backslash that stands directly in front of a pipe is left out, and nothing else is. -/
theorem unescape_eq (t : Text) :
    unescape t = (t.zipIdx.filter fun p => !escapesAt t p.2).map Prod.fst := by
  induction t with
  | nil => rfl
  | cons c t ih =>
    have hfirst : escapesAt (c :: t) 0 = (c == '\\' && t.head? == some '|') := by
      simp [escapesAt, List.head?_eq_getElem?]
    have htail : ((t.zipIdx 1).filter fun p => !escapesAt (c :: t) p.2).map Prod.fst =
        unescape t := by
      rw [ih, List.zipIdx_succ, List.filter_map, List.map_map]
      rfl
    rw [unescape_cons_eq, List.zipIdx_cons, List.filter_cons, hfirst]
    by_cases h : c = '\\' ∧ t.head? = some '|'
    · rw [if_pos h, if_neg (by simp [h]), htail]
    · rw [if_neg h, if_pos (by simpa [imp_iff_not_or] using h), List.map_cons, htail]

theorem unescape_eq_nil_iff {t : Text} : unescape t = [] ↔ t = [] := by
  constructor
  · intro h
    have hlast := getLast?_unescape t
    rw [h] at hlast
    exact List.getLast?_eq_none_iff.1 hlast.symm
  · rintro rfl
    rfl

end Pieces

/-! ## Alternatives -/

open Pieces

theorem getElem?_alternativesOf_eq_nil_iff {side piece : Text} {k : Nat}
    (h : (dropEmptyTail (cut side))[k]? = some piece) :
    (alternativesOf side)[k]? = some [] ↔ piece.isBlankOnly = true := by
  rw [alternativesOf, List.getElem?_map, h, Option.map_some, Option.some_inj, unescape_eq_nil_iff,
    Text.trim_eq_nil_iff]

/-- **A right-hand side is cut at its splitting pipes.** Its pieces make it up again with pipes
between them, and they are joined at the pipes that split and at no others. If the last piece is
empty and not the only one, it is dropped, and never a second one. The alternatives are the pieces
that are kept, in order, each trimmed first and then without the backslashes that stand directly in
front of a pipe. An alternative is empty exactly when there is nothing but blanks in its piece, and
behind the first alternative there is at least one blank in it then. -/
theorem alternativesOf_cut_at_splitting_pipes (side : Text) :
    List.intercalate ['|'] (cut side) = side ∧
    (∀ i, IsJoint (cut side) i ↔ SplitsAt side i) ∧
    (∀ pieces, dropEmptyTail pieces = match withoutLastEmpty? pieces with
      | none => pieces
      | some rest => dropEmptyTail rest) ∧
    (∀ rest, withoutLastEmpty? (cut side) = some rest →
      cut side = rest ++ [[]] ∧ withoutLastEmpty? rest = none ∧ dropEmptyTail (cut side) = rest) ∧
    alternativesOf side = (dropEmptyTail (cut side)).map (fun piece =>
      (piece.trim.zipIdx.filter fun p => !escapesAt piece.trim p.2).map Prod.fst) ∧
    ∀ (k : Nat) (piece : Text), (dropEmptyTail (cut side))[k]? = some piece →
      ((alternativesOf side)[k]? = some [] ↔ piece.isBlankOnly = true) ∧ (0 < k → piece ≠ []) := by
  refine ⟨intercalate_cut side, fun i => isJoint_cut_iff, dropEmptyTail_eq, fun rest hround => ?_,
    ?_, fun k piece hpiece => ?_⟩
  · refine ⟨(withoutLastEmpty?_eq_some_iff.1 hround).2, withoutLastEmpty?_cut hround, ?_⟩
    rw [dropEmptyTail_cut, hround, Option.getD_some]
  · exact List.map_congr_left fun piece _ => unescape_eq piece.trim
  · exact ⟨getElem?_alternativesOf_eq_nil_iff hpiece, fun hk =>
      ne_nil_of_getElem?_dropEmptyTail_cut hk hpiece⟩

/-- A side with pipes that do not split, a blank piece and a pipe at its end. -/
def mixedSide : Text := "a||b\\|c| |d|".toList

theorem alternativesOf_cut_at_splitting_pipes_of_mixedSide :
    SplitsAt mixedSide 7 ∧ ¬ SplitsAt mixedSide 5 ∧
    dropEmptyTail (cut mixedSide) = ["a||b\\|c".toList, [' '], ['d']] ∧
    (alternativesOf mixedSide)[1]? = some [] := by
  obtain ⟨-, hjoint, -, hround, -, hpieces⟩ := alternativesOf_cut_at_splitting_pipes mixedSide
  have hsome : withoutLastEmpty? (cut mixedSide) = some ["a||b\\|c".toList, [' '], ['d']] := by
    decide
  obtain ⟨hcut, -, hkept⟩ := hround _ hsome
  have hseven : IsJoint (cut mixedSide) 7 :=
    ⟨["a||b\\|c".toList], [[' '], ['d'], []], by decide, by decide, hcut, by decide⟩
  refine ⟨(hjoint 7).1 hseven, fun hsplit => (hsplit.front 4 rfl).2 (by decide), hkept, ?_⟩
  exact (hpieces 1 [' '] (by rw [hkept]; rfl)).1.2 (by decide)

end GrammarTree
