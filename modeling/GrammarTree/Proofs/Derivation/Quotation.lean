import GrammarTree.Derivation.Drawing

/-!
# Captions in quotes

A drawing writes every caption between double quotes, and `escapeQuotes` puts a backslash in front
of some of its characters. Who reads the drawing takes a backslash together with the character
behind it, and takes the first double quote that stands alone for the end of the caption. This file
proves that this quote is the closing one, whatever the caption holds.

There are two ways to get this wrong. A quote in the label that is not escaped would end the caption
early; and a backslash at the end of the label that is not escaped would take the closing quote with
it, so that the caption would run on. Escaping only the quotes leaves the second one open. The
statement is therefore made about units: a plain character, or a backslash with the character that
it escapes. The label is read unit by unit up to the closing quote, none of its units is a plain
quote or a plain backslash, and what stands behind the quote is read as if it stood alone.

What is here:

* `QuotedUnit`, what such a reader takes at once, and `QuotedUnit.ofText?`, the units of a text;
* `QuotedUnit.ofText?_flatMap_append`: what is written in units is read in the same units;
* `escapeQuotes_eq_replaceChar`: the escaping in one pass is the same as two replacements, of the
  backslashes first and of the quotes second;
* `escapeQuotes_delimited`: an escaped label in quotes, unit by unit.
-/

set_option autoImplicit false

namespace GrammarTree

/-! ## Units -/

/-- What is read at once between double quotes. -/
inductive QuotedUnit where
  /-- A character that stands for itself. -/
  | plain (c : Char)
  /-- A backslash with the character behind it. -/
  | escaped (c : Char)
  deriving DecidableEq, Repr

namespace QuotedUnit

/-- The text of a unit. -/
def text : QuotedUnit → Text
  | plain c => [c]
  | escaped c => ['\\', c]

/-- The character that a unit stands for. -/
def char : QuotedUnit → Char
  | plain c => c
  | escaped c => c

/-- The units of a text, from left to right. A text that ends in the middle of a unit has none. -/
def ofText? : Text → Option (List QuotedUnit)
  | [] => some []
  | ['\\'] => none
  | '\\' :: c :: t => (ofText? t).map (escaped c :: ·)
  | c :: t => (ofText? t).map (plain c :: ·)

variable {u : QuotedUnit} {us : List QuotedUnit}

/-- A unit is read as it is written. Only a backslash does not stand for itself. -/
theorem ofText?_text_append (hu : u ≠ plain '\\') (t : Text) :
    ofText? (u.text ++ t) = (ofText? t).map (u :: ·) := by
  cases u with
  | escaped c => rfl
  | plain c =>
    have hc : c ≠ '\\' := fun hc => hu (congrArg plain hc)
    rw [text, List.singleton_append, ofText?]
    · exact fun h _ => hc h
    · exact fun _ _ h _ => hc h

theorem ofText?_flatMap_append (hus : plain '\\' ∉ us) (t : Text) :
    ofText? (us.flatMap text ++ t) = (ofText? t).map (us ++ ·) := by
  induction us with
  | nil => simp
  | cons u us ih =>
    rw [List.mem_cons, not_or] at hus
    rw [List.flatMap_cons, List.append_assoc, ofText?_text_append (Ne.symm hus.1), ih hus.2,
      Option.map_map]
    rfl

/-- The unit of a character in an escaped label. -/
def ofChar (c : Char) : QuotedUnit := if c = '\\' || c = '"' then escaped c else plain c

theorem char_ofChar (c : Char) : (ofChar c).char = c := by
  rw [ofChar]
  split <;> rfl

/-- Neither a backslash nor a double quote stands alone in an escaped label. -/
theorem plain_notMem_map_ofChar {c : Char} (hc : (c = '\\' || c = '"') = true) (label : Text) :
    plain c ∉ label.map ofChar := by
  intro hmem
  obtain ⟨d, -, hd⟩ := List.mem_map.1 hmem
  rw [ofChar] at hd
  split at hd
  · cases hd
  · rename_i hplain
    cases hd
    exact hplain hc

end QuotedUnit

/-! ## Escaped labels

The two replacements have to be made in this order. If the quotes came first, the backslashes in
front of them would be doubled by the second replacement, and the quotes would stand alone again. -/

open QuotedUnit

theorem escapeQuotes_eq_flatMap (label : Text) :
    escapeQuotes label = (label.map ofChar).flatMap text := by
  induction label with
  | nil => rfl
  | cons c label ih =>
    rw [escapeQuotes, List.map_cons, List.flatMap_cons, ih, ofChar]
    split <;> rfl

/-- A text with another one in place of every occurrence of a character. -/
def Text.replaceChar (t : Text) (c : Char) (new : Text) : Text :=
  t.flatMap fun d => if d = c then new else [d]

/-- Escaping is to double the backslashes first, and then to put one in front of every quote. The
second step leaves the backslashes of the first one alone. -/
theorem escapeQuotes_eq_replaceChar (label : Text) :
    escapeQuotes label = (label.replaceChar '\\' ['\\', '\\']).replaceChar '"' ['\\', '"'] := by
  rw [Text.replaceChar, Text.replaceChar, List.flatMap_assoc]
  induction label with
  | nil => rfl
  | cons c label ih =>
    rw [escapeQuotes, ih, List.flatMap_cons]
    by_cases hescape : c = '\\'
    · simp [hescape]
    · by_cases hquote : c = '"'
      · simp [hquote]
      · simp [hescape, hquote]

/-- A label in quotes consists of the opening quote, the units of its characters and the closing
quote, whatever follows. -/
theorem ofText?_quoted_append (label rest : Text) :
    ofText? ('"' :: escapeQuotes label ++ '"' :: rest) =
      (ofText? rest).map fun behind => plain '"' :: label.map ofChar ++ plain '"' :: behind := by
  have htext : '"' :: escapeQuotes label ++ '"' :: rest =
      (plain '"' :: label.map ofChar ++ [plain '"']).flatMap text ++ rest := by
    simp [escapeQuotes_eq_flatMap, text]
  have hwhole : plain '\\' ∉ plain '"' :: label.map ofChar ++ [plain '"'] := by
    simpa using plain_notMem_map_ofChar rfl label
  rw [htext, ofText?_flatMap_append hwhole]
  simp

/-- **A label in quotes ends at its closing quote, and reads back.** Unit by unit, the escaped label
is whole: no double quote stands alone in it, and its last backslash has a character behind it, so
that the quotes around it are the first and the next that stand alone, whatever follows. Its units
stand for the characters of the label. -/
theorem escapeQuotes_delimited (label : Text) :
    escapeQuotes label = (label.replaceChar '\\' ['\\', '\\']).replaceChar '"' ['\\', '"'] ∧
    ∃ us, ofText? (escapeQuotes label) = some us ∧ plain '"' ∉ us ∧ us.map char = label ∧
      ∀ rest, ofText? ('"' :: escapeQuotes label ++ '"' :: rest) =
        (ofText? rest).map fun behind => plain '"' :: us ++ plain '"' :: behind := by
  refine ⟨escapeQuotes_eq_replaceChar label, label.map ofChar, ?_,
    plain_notMem_map_ofChar rfl label, ?_, ofText?_quoted_append label⟩
  · have hread := ofText?_flatMap_append (plain_notMem_map_ofChar rfl label) []
    rw [List.append_nil, ← escapeQuotes_eq_flatMap] at hread
    simpa [ofText?] using hread
  · rw [List.map_map]
    exact List.map_id'' char_ofChar label

/-- A label that ends with a backslash does not swallow the closing quote. -/
example : ofText? ('"' :: escapeQuotes "\\\"\\".toList ++ ['"']) =
    some [plain '"', escaped '\\', escaped '"', escaped '\\', plain '"'] := by
  decide

end GrammarTree
