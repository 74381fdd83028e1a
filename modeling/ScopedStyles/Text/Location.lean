import ScopedStyles.Text.Basic

/-!
# Locations

A line and a column, both counted from one. A line ends with a line feed and with nothing else.

## Main definitions

* `Location.after` — where the character after a text stands.
* `Text.locate` — the location of an offset in a text.
-/

namespace ScopedStyles

/-- A place in a text. -/
structure Location where
  line : Nat
  column : Nat
  deriving DecidableEq, Repr

namespace Location

/-- Where a text begins. -/
def start : Location :=
  ⟨1, 1⟩

/-- The location one character further on. -/
def advance (l : Location) (c : Char) : Location :=
  if c = '\n' then ⟨l.line + 1, 1⟩ else ⟨l.line, l.column + 1⟩

/-- Where the character after a text stands. -/
def after (t : Text) : Location :=
  t.foldl advance start

@[simp] theorem after_nil : after [] = start := rfl

@[simp] theorem after_concat (t : Text) (c : Char) : after (t ++ [c]) = (after t).advance c := by
  simp [after]

end Location

/-- The location of the character at an offset, or of the end of the text. -/
def Text.locate (t : Text) (offset : Nat) : Location :=
  .after (t.take offset)

end ScopedStyles
