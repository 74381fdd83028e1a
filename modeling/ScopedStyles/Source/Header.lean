import ScopedStyles.Rule.Basic
import ScopedStyles.Text.Blank

/-!
# Headers and declarations

The text in front of an opening brace says what kind of block it opens, and the text in front of a
semicolon is a declaration.

## Main definitions

* `Header.ofText` — what a header says.
* `Source.declaration?` — the property and the value of a declaration.
-/

namespace ScopedStyles

/-- What the text in front of an opening brace says. -/
inductive Header
  | keyframes (name : Text)
  | group (type : GroupType) (query : Text)
  /-- A header that starts like an at-rule and is none of the known ones. -/
  | unknown
  | selector
  deriving DecidableEq, Repr

/-- Reads a header. A keyword counts wherever the header starts with it, so no blank is needed
between the keyword and what follows it. -/
def Header.ofText (text : Text) : Header :=
  match keyframesKeyword.isPrefixOf? text with
  | some rest => .keyframes (Text.trim rest)
  | none =>
    match GroupType.media.keyword.isPrefixOf? text with
    | some rest => .group .media (Text.trim rest)
    | none =>
      match GroupType.supports.keyword.isPrefixOf? text with
      | some rest => .group .supports (Text.trim rest)
      | none => if text.head? = some '@' then .unknown else .selector

theorem Header.ofText_keyframes (name : Text) :
    ofText (keyframesKeyword ++ name) = .keyframes name.trim := by
  simp [ofText]

theorem Header.ofText_group (type : GroupType) (query : Text) :
    ofText (type.keyword ++ query) = .group type query.trim := by
  cases type <;> simp [ofText]

theorem Header.ofText_selector {text : Text} (h : text.head? ≠ some '@') :
    ofText text = .selector := by
  rw [ofText, isPrefixOf?_eq_none rfl h, isPrefixOf?_eq_none rfl h, isPrefixOf?_eq_none rfl h]
  exact if_neg h

theorem Header.ofText_ne_selector {text : Text} (h : text.head? = some '@') :
    ofText text ≠ .selector := by
  unfold ofText
  repeat' split
  all_goals simp_all

/-- The property and the value of a declaration, which stand before and after the first colon and
must not be blank. -/
def Source.declaration? (text : Text) : Option (Text × Text) :=
  match text.cutAt? ':' with
  | none => none
  | some (before, after) =>
    let property := Text.trim before
    let value := Text.trim after
    if property = [] ∨ value = [] then none else some (property, value)

end ScopedStyles
