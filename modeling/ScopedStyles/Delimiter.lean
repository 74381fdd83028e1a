import ScopedStyles.Text.Basic

/-!
# Delimiters

Braces and semicolons cut a style sheet into pieces.

## Main definitions

* `Delimiter` — the three delimiters.
* `Chunk` — a piece with the delimiter that ends it.
* `Chunk.cut` — the pieces of a text.
-/

namespace ScopedStyles

/-- A character that ends a piece of a style sheet. -/
inductive Delimiter
  | semicolon
  | openBrace
  | closeBrace
  deriving DecidableEq, Repr

namespace Delimiter

/-- The delimiter as it is written. -/
def char : Delimiter → Char
  | .semicolon => ';'
  | .openBrace => '{'
  | .closeBrace => '}'

/-- The delimiter that a character is. -/
def ofChar? (c : Char) : Option Delimiter :=
  if c = ';' then some .semicolon
  else if c = '{' then some .openBrace
  else if c = '}' then some .closeBrace
  else none

@[simp] theorem ofChar?_char (d : Delimiter) : ofChar? d.char = some d := by
  cases d <;> rfl

theorem ofChar?_eq_some_iff {c : Char} {d : Delimiter} : ofChar? c = some d ↔ c = d.char := by
  constructor
  · intro h
    unfold ofChar? at h
    repeat' split at h
    all_goals cases h
    all_goals assumption
  · rintro rfl
    simp

theorem ofChar?_eq_none_iff {c : Char} :
    ofChar? c = none ↔ c ≠ ';' ∧ c ≠ '{' ∧ c ≠ '}' := by
  unfold ofChar?
  repeat' split
  all_goals simp_all

theorem ofChar?_of_isWhitespace {c : Char} (h : c.isWhitespace = true) : ofChar? c = none := by
  rw [ofChar?_eq_none_iff]
  refine ⟨?_, ?_, ?_⟩ <;>
  · rintro rfl
    cases h

end Delimiter

/-- A piece of a style sheet: the text in front of a delimiter, the delimiter, and the offset at
which the delimiter stands. -/
structure Chunk where
  text : Text
  delimiter : Delimiter
  offset : Nat
  deriving DecidableEq, Repr

namespace Chunk

/-- The pieces that end in a text, whose first character stands at `offset`. What has been read of
the first piece is `gathered`, the latest character first. -/
def cutFrom (gathered : Text) (offset : Nat) : Text → List Chunk
  | [] => []
  | c :: t =>
    match Delimiter.ofChar? c with
    | some d => ⟨gathered.reverse, d, offset⟩ :: cutFrom [] (offset + 1) t
    | none => cutFrom (c :: gathered) (offset + 1) t

/-- What follows the last delimiter of a text. What has been read before the text is `gathered`. -/
def restFrom (gathered : Text) : Text → Text
  | [] => gathered.reverse
  | c :: t =>
    match Delimiter.ofChar? c with
    | some _ => restFrom [] t
    | none => restFrom (c :: gathered) t

/-- The pieces of a text, cut at every delimiter. -/
def cut (t : Text) : List Chunk :=
  cutFrom [] 0 t

/-- What follows the last delimiter of a text. -/
def rest (t : Text) : Text :=
  restFrom [] t

end Chunk

end ScopedStyles
