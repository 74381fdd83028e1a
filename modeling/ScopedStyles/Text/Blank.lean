import ScopedStyles.Text.Basic

/-!
# Blank characters

The characters that Unicode counts as white space, together with the four information separators.
Trimming and splitting into words go by this class.

## Main definitions

* `Text.isBlank` — the class.
* `Text.trim` — a text without the blanks at its two ends.
* `Text.words` — the longest pieces of a text that hold no blank.
-/

namespace ScopedStyles.Text

/-- The first and last code points of each run of blanks. -/
def blankRanges : List (Nat × Nat) :=
  [(0x09, 0x0D), (0x1C, 0x20), (0x85, 0x85), (0xA0, 0xA0), (0x1680, 0x1680), (0x2000, 0x200A),
   (0x2028, 0x2029), (0x202F, 0x202F), (0x205F, 0x205F), (0x3000, 0x3000)]

/-- Whether a character is a blank. -/
def isBlank (c : Char) : Bool :=
  blankRanges.any fun range => range.1 ≤ c.toNat && c.toNat ≤ range.2

/-- A text without the blanks at its beginning. -/
def trimStart (t : Text) : Text :=
  t.dropWhile isBlank

/-- A text without the blanks at its end. -/
def trimEnd (t : Text) : Text :=
  (t.reverse.dropWhile isBlank).reverse

/-- A text without the blanks at its two ends. -/
def trim (t : Text) : Text :=
  trimEnd (trimStart t)

/-- The longest pieces of a text that hold no blank. -/
def words (t : Text) : List Text :=
  (t.splitOnP isBlank).filter (· ≠ [])

@[simp] theorem trim_nil : trim [] = [] := rfl

@[simp] theorem words_nil : words [] = [] := rfl

theorem ne_nil_of_mem_words {t word : Text} (h : word ∈ words t) : word ≠ [] := by
  simpa using (List.mem_filter.1 h).2

end ScopedStyles.Text
