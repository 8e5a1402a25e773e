import GrammarTree.Pattern
import Mathlib.Data.List.NodupEquivFin

/-!
# What a pattern matches

A pattern without quotes is searched for with one scan over the candidate: a pointer into the
pattern moves on whenever the character that it points at is read. The pointer takes every character
as early as possible. This file proves that nothing is lost by that: whenever the characters of the
pattern stand in the candidate in some increasing positions, the scan comes to the end of it. The
three ways of quoting a text are then one stricter than the other.

The scan is not what the definition runs, which asks for a sublist. It is stated here as a function
of its own, and the two are proved to be the same test. The increasing positions are a third form of
it, an embedding of the places of the pattern into those of the candidate.

What is here:

* `Text.IsQuoted`, a text that starts and ends with a quote, with `Text.unquote?_eq_some_iff`;
* `Pattern.scan`, the scan, and `Pattern.take_sublist_iff_le_scan`: it finds the longest front of
  the pattern that the candidate has;
* `matchesPattern_iff_by_quotes`: what each kind of pattern matches.
-/

set_option autoImplicit false

namespace GrammarTree

/-! ## Quotes

A quote by itself is not a quoted text, since its start is its end. All other texts that start and
end with the same quote are quoted, whatever quotes stand between. -/

namespace Text

variable {quote c : Char} {t inner : Text}

theorem unquote?_quoted (quote : Char) (t : Text) :
    unquote? quote (quote :: t ++ [quote]) = some t := by
  simp [unquote?]

theorem unquote?_cons_eq_none_iff :
    unquote? quote (c :: t) = none ↔ ¬ (c = quote ∧ t.getLast? = some quote) := by
  simp [unquote?]

/-- Whether a text has a quote at its start and another one at its end. -/
structure IsQuoted (quote : Char) (t : Text) : Prop where
  /-- The two quotes are not the same character of the text. -/
  two_le_length : 2 ≤ t.length
  /-- It starts with a quote. -/
  starts : t.head? = some quote
  /-- It ends with a quote. -/
  ends : t.getLast? = some quote

/-- The text between the quotes, if there are quotes. -/
def inside (t : Text) : Text := t.tail.dropLast

theorem isQuoted_quoted (quote : Char) (t : Text) : IsQuoted quote (quote :: t ++ [quote]) where
  two_le_length := by simp
  starts := rfl
  ends := List.getLast?_concat

theorem IsQuoted.eq_quoted (h : IsQuoted quote t) : t = quote :: t.inside ++ [quote] := by
  obtain ⟨hlength, hstarts, hends⟩ := h
  match t with
  | [] => simp at hstarts
  | [c] => simp at hlength
  | c :: d :: t =>
    obtain rfl : c = quote := by simpa using hstarts
    have hlast : (d :: t).getLast? = some c := by simpa using hends
    have hsplit := List.dropLast_append_getLast? c hlast
    simp [inside, hsplit]

theorem unquote?_eq_some_iff :
    t.unquote? quote = some inner ↔ IsQuoted quote t ∧ t.inside = inner := by
  constructor
  · intro h
    cases t with
    | nil => cases h
    | cons c t =>
      simp only [unquote?, Bool.and_eq_true, decide_eq_true_eq, Option.ite_none_right_eq_some,
        Option.some.injEq] at h
      obtain ⟨⟨rfl, hlast⟩, rfl⟩ := h
      have hne : t ≠ [] := by
        rintro rfl
        cases hlast
      refine ⟨⟨?_, rfl, ?_⟩, rfl⟩
      · have := List.length_pos_iff.2 hne
        simp only [List.length_cons]
        omega
      · rw [List.getLast?_cons, hlast, Option.getD_some]
  · rintro ⟨hquoted, rfl⟩
    conv_lhs => rw [hquoted.eq_quoted]
    exact unquote?_quoted quote _

theorem unquote?_eq_none_iff : t.unquote? quote = none ↔ ¬ IsQuoted quote t := by
  rw [Option.eq_none_iff_forall_ne_some]
  simp [unquote?_eq_some_iff]

end Text

namespace Pattern

/-! ## The scan

The induction is along the candidate, with the pattern in three parts: what was found, what is
asked for, and what comes after. The last part is there because the scan goes on beyond what is
asked for. -/

/-- How far a pattern is found in a candidate, when its first `look` characters were found before.
The scan does not go on at the end of the pattern. -/
def scan (p : Text) (look : Nat) : Text → Nat
  | [] => look
  | c :: candidate =>
    if look = p.length then look
    else if p[look]? = some c then scan p (look + 1) candidate
    else scan p look candidate

theorem le_scan (p : Text) (look : Nat) (candidate : Text) : look ≤ scan p look candidate := by
  induction candidate generalizing look with
  | nil => exact Nat.le_refl look
  | cons c candidate ih =>
    rw [scan]
    split
    · exact Nat.le_refl look
    · split
      · exact Nat.le_of_succ_le (ih (look + 1))
      · exact ih look

theorem scan_le_length {p : Text} {look : Nat} (hlook : look ≤ p.length) (candidate : Text) :
    scan p look candidate ≤ p.length := by
  induction candidate generalizing look with
  | nil => exact hlook
  | cons c candidate ih =>
    rw [scan]
    split
    · exact hlook
    · split
      · exact ih (by omega)
      · exact ih hlook

/-- The scan comes to the end of some more characters of the pattern exactly when the candidate has
them in order. That a character is taken at its first occurrence loses nothing: what follows a later
occurrence also follows the first one. -/
theorem sublist_iff_le_scan {p read front back : Text} (hp : p = read ++ (front ++ back))
    (candidate : Text) :
    front.Sublist candidate ↔ read.length + front.length ≤ scan p read.length candidate := by
  induction candidate generalizing read front with
  | nil =>
    rw [List.sublist_nil, scan, ← List.length_eq_zero_iff]
    omega
  | cons c candidate ih =>
    cases front with
    | nil => simpa using le_scan p read.length (c :: candidate)
    | cons d front =>
      have hpoints : p[read.length]? = some d := by simp [hp]
      have hgoing : read.length ≠ p.length := by simp [hp]
      rw [scan, if_neg hgoing, hpoints]
      by_cases hd : d = c
      · subst hd
        have hrest : front.Sublist candidate ↔
            (read ++ [d]).length + front.length ≤ scan p (read ++ [d]).length candidate :=
          ih (by simp [hp])
        rw [List.length_append, List.length_singleton] at hrest
        rw [if_pos rfl, List.cons_sublist_cons, hrest, List.length_cons]
        omega
      · have hrest := ih hp
        have hskip : (d :: front).Sublist (c :: candidate) ↔ (d :: front).Sublist candidate :=
          ⟨fun h => by
            cases h with
            | cons _ h => exact h
            | cons_cons => exact absurd rfl hd, fun h => h.cons c⟩
        rw [if_neg (by simpa using hd), hskip, hrest]

/-- The scan finds the longest front of the pattern that the candidate has. -/
theorem take_sublist_iff_le_scan {p : Text} {n : Nat} (hn : n ≤ p.length) (candidate : Text) :
    (p.take n).Sublist candidate ↔ n ≤ scan p 0 candidate := by
  have hp : p = [] ++ (p.take n ++ p.drop n) := by simp
  have hfront := sublist_iff_le_scan hp candidate
  simpa [hn] using hfront

/-- The scan comes to the end of a pattern exactly when its characters stand in the candidate in
order. -/
theorem scan_eq_length_iff {p candidate : Text} :
    scan p 0 candidate = p.length ↔ p.Sublist candidate := by
  have hle := scan_le_length (Nat.zero_le p.length) candidate
  have hall := take_sublist_iff_le_scan (Nat.le_refl p.length) candidate
  rw [List.take_length] at hall
  rw [hall]
  omega

/-! ## The kinds of patterns -/

variable {p t : Text}

theorem ofText_of_isQuoted (h : p.IsQuoted '\'') : ofText p = .part p.inside := by
  rw [ofText, Text.unquote?_eq_some_iff.2 ⟨h, rfl⟩]

theorem ofText_of_isQuoted_double (hsingle : ¬ p.IsQuoted '\'') (h : p.IsQuoted '"') :
    ofText p = .exact p.inside := by
  rw [ofText, Text.unquote?_eq_none_iff.2 hsingle, Text.unquote?_eq_some_iff.2 ⟨h, rfl⟩]

theorem ofText_of_not_isQuoted (hsingle : ¬ p.IsQuoted '\'') (hdouble : ¬ p.IsQuoted '"') :
    ofText p = .scattered p := by
  rw [ofText, Text.unquote?_eq_none_iff.2 hsingle, Text.unquote?_eq_none_iff.2 hdouble]

theorem ofText_toText_part (t : Text) : ofText (toText (.part t)) = .part t := by
  rw [toText, ofText, Text.unquote?_quoted]

theorem ofText_toText_exact (t : Text) : ofText (toText (.exact t)) = .exact t := by
  have hsingle : Text.unquote? '\'' ('"' :: t ++ ['"']) = none :=
    Text.unquote?_cons_eq_none_iff.2 (by simp)
  rw [toText, ofText, hsingle, Text.unquote?_quoted]

end Pattern

variable {p t candidate : Text}

theorem matchesPattern_toText_part :
    matchesPattern (Pattern.part t).toText candidate = true ↔ t <:+: candidate := by
  rw [matchesPattern, Pattern.ofText_toText_part, Pattern.accepts_part_iff]

theorem matchesPattern_toText_exact :
    matchesPattern (Pattern.exact t).toText candidate = true ↔ candidate = t := by
  rw [matchesPattern, Pattern.ofText_toText_exact, Pattern.accepts_exact_iff]

theorem matchesPattern_of_not_isQuoted (hsingle : ¬ p.IsQuoted '\'') (hdouble : ¬ p.IsQuoted '"') :
    matchesPattern p candidate = true ↔ p.Sublist candidate := by
  rw [matchesPattern, Pattern.ofText_of_not_isQuoted hsingle hdouble, Pattern.accepts_scattered_iff]

/-- **What a pattern matches.** Between apostrophes it matches the candidates in which it occurs;
else between double quotes, the candidate equal to it; else the candidates that have its characters
in increasing positions, which are those where the scan comes to its end. A text that is not quoted
matches more in apostrophes than in double quotes, and still more without quotes. -/
theorem matchesPattern_iff_by_quotes (p candidate : Text) :
    (p.IsQuoted '\'' → (matchesPattern p candidate = true ↔ p.inside <:+: candidate)) ∧
    (¬ p.IsQuoted '\'' → p.IsQuoted '"' →
      (matchesPattern p candidate = true ↔ candidate = p.inside)) ∧
    (¬ p.IsQuoted '\'' → ¬ p.IsQuoted '"' →
      (matchesPattern p candidate = true ↔
        ∃ place : Fin p.length ↪o Fin candidate.length, ∀ k, p.get k = candidate.get (place k)) ∧
      (matchesPattern p candidate = true ↔ Pattern.scan p 0 candidate = p.length) ∧
      (matchesPattern ('"' :: p ++ ['"']) candidate = true →
        matchesPattern ('\'' :: p ++ ['\'']) candidate = true) ∧
      (matchesPattern ('\'' :: p ++ ['\'']) candidate = true →
        matchesPattern p candidate = true)) := by
  refine ⟨fun hsingle => ?_, fun hsingle hdouble => ?_, fun hsingle hdouble => ?_⟩
  · rw [matchesPattern, Pattern.ofText_of_isQuoted hsingle, Pattern.accepts_part_iff]
  · rw [matchesPattern, Pattern.ofText_of_isQuoted_double hsingle hdouble,
      Pattern.accepts_exact_iff]
  · have hbare : matchesPattern p candidate = true ↔ p.Sublist candidate :=
      matchesPattern_of_not_isQuoted hsingle hdouble
    refine ⟨?_, ?_, fun hexact => ?_, fun hpart => ?_⟩
    · rw [hbare, List.sublist_iff_exists_fin_orderEmbedding_get_eq]
    · rw [hbare, Pattern.scan_eq_length_iff]
    · obtain rfl := matchesPattern_toText_exact.1 hexact
      exact matchesPattern_toText_part.2 List.infix_rfl
    · exact hbare.2 (matchesPattern_toText_part.1 hpart).sublist

/-- A lone quote is not quoted: it is found as a character, and it can be quoted itself. -/
theorem matchesPattern_iff_by_quotes_of_lone_quote :
    ¬ Text.IsQuoted '\'' ['\''] ∧ ¬ Text.IsQuoted '"' ['\''] ∧
      (∃ place : Fin 1 ↪o Fin 4, ∀ k, ['\''].get k = ['i', 't', '\'', 's'].get (place k)) ∧
      matchesPattern "'''".toList "it's".toList = true ∧
      matchesPattern "'".toList "it's".toList = true := by
  have hsingle : ¬ Text.IsQuoted '\'' ['\''] := fun h => absurd h.two_le_length (by decide)
  have hdouble : ¬ Text.IsQuoted '"' ['\''] := fun h => absurd h.starts (by decide)
  obtain ⟨hplaces, hscan, -, hpart⟩ :=
    (matchesPattern_iff_by_quotes ['\''] "it's".toList).2.2 hsingle hdouble
  have hinside : Text.inside "'''".toList <:+: "it's".toList := ⟨['i', 't'], ['s'], rfl⟩
  have hfound : matchesPattern "'''".toList "it's".toList = true :=
    ((matchesPattern_iff_by_quotes "'''".toList "it's".toList).1
      (Text.isQuoted_quoted '\'' ['\''])).2 hinside
  exact ⟨hsingle, hdouble, hplaces.1 (hscan.2 (by decide)), hfound, hpart hfound⟩

end GrammarTree
