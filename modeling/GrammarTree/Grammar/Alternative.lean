import GrammarTree.Symbol
import GrammarTree.Text.Blank

/-!
# Alternatives

An alternative is one right-hand side option of a rule. It is read as a sequence of *tokens*, which
become the children of the node it expands: every non-terminal `<...>` is one token, and so is every
other run of characters between blanks and non-terminals. Two alternatives that differ only in their
blanks have the same *value*, the tokens written one after the other.

An angle bracket that is no part of a non-terminal is a character like any other, and may even be a
token of its own. So the text is cut in two steps. The first finds the non-terminals, from left to
right, and leaves the other characters single; the second gathers the single characters into tokens.
Between the two steps nothing is lost, not even the blanks.

What is here:

* `Alternative.nonterminal?`, which recognises a non-terminal at the start of a text;
* `Alternative.Item` and `Alternative.items`, the text cut into non-terminals and single characters
  (`Alternative.flatMap_text_items`: nothing is lost);
* `Alternative.tokens` and `Alternative.value`.
-/

set_option autoImplicit false

namespace GrammarTree

namespace Alternative

/-! ## Non-terminals -/

/-- Angle brackets delimit a non-terminal and never stand inside it. -/
def isBracket (c : Char) : Bool := c = '<' || c = '>'

/-- The non-terminal at the start of a text, without its brackets, and the rest of the text. Its
name holds no bracket and does not start with a blank. -/
def nonterminal? : Text → Option (Text × Text)
  | '<' :: c :: t =>
    if isBracket c || isBlank c then none
    else
      let name := c :: t.takeWhile fun d => !isBracket d
      match t.dropWhile fun d => !isBracket d with
      | '>' :: rest => some (name, rest)
      | _ => none
  | _ => none

theorem eq_append_of_nonterminal? {t name rest : Text} (h : nonterminal? t = some (name, rest)) :
    t = symbolOf name ++ rest := by
  unfold nonterminal? at h
  split at h
  · rename_i c t
    split at h
    · simp at h
    · split at h
      · rename_i tail hdrop
        simp only [Option.some.injEq, Prod.mk.injEq] at h
        obtain ⟨rfl, rfl⟩ := h
        have hsplit := List.takeWhile_append_dropWhile (p := fun d => !isBracket d) (l := t)
        rw [hdrop] at hsplit
        simp [symbolOf, hsplit]
      · simp at h
  · simp at h

theorem length_lt_of_nonterminal? {t name rest : Text} (h : nonterminal? t = some (name, rest)) :
    rest.length < t.length := by
  rw [eq_append_of_nonterminal? h]
  simp only [symbolOf, List.cons_append, List.length_cons, List.length_append]
  omega

/-! ## Items

The recursion goes on behind a non-terminal, which may be any number of characters further on, so
its end has to be proved: what stands behind a non-terminal is shorter. -/

/-- A part of an alternative. -/
inductive Item where
  /-- A non-terminal, by its name. -/
  | nonterminal (name : Text)
  /-- A character outside the non-terminals. -/
  | char (c : Char)
  deriving DecidableEq, Repr

/-- The text that an item was cut from. -/
def Item.text : Item → Text
  | .nonterminal name => symbolOf name
  | .char c => [c]

/-- An alternative cut into non-terminals and single characters, from left to right. -/
def items : Text → List Item
  | [] => []
  | c :: t =>
    match _h : nonterminal? (c :: t) with
    | some (name, rest) => .nonterminal name :: items rest
    | none => .char c :: items t
  termination_by t => t.length
  decreasing_by
    · exact length_lt_of_nonterminal? _h
    · simp

theorem flatMap_text_items (t : Text) : (items t).flatMap Item.text = t := by
  fun_induction items t with
  | case1 => rfl
  | case2 c t name rest h ih => simp [Item.text, ih, eq_append_of_nonterminal? h]
  | case3 c t h ih => simp [Item.text, ih]

/-! ## Tokens -/

/-- Items gathered into tokens: a non-terminal is a token, characters next to each other share
one, and blanks only separate. -/
def gather : List Item → List Text
  | [] => []
  | .nonterminal name :: items => symbolOf name :: gather items
  | .char c :: items =>
    if isBlank c then gather items
    else match items with
      | .char d :: _ =>
        if isBlank d then [c] :: gather items else (gather items).modifyHead (c :: ·)
      | _ => [c] :: gather items

/-- The tokens of an alternative, in written order. -/
def tokens (alternative : Text) : List Text := gather (items alternative)

/-- The value of an alternative: its tokens with nothing between them. -/
def value (alternative : Text) : Text := (tokens alternative).flatten

end Alternative

end GrammarTree
