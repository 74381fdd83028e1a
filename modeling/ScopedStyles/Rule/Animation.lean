import ScopedStyles.Dictionary
import ScopedStyles.Text.Blank

/-!
# References to animations

A declaration refers to an animation by the name that it has within the source. In the rules the
animation goes by its qualified name, so the reference has to follow.

## Main definitions

* `Animation.renameEntry` — one entry of a list of animations.
* `Animation.renameList` — a list of animations, separated by commas.
* `Animation.renameValue` — the value of a property.
-/

namespace ScopedStyles.Animation

variable (names : Dictionary)

/-- Renames the animation that an entry starts with and puts single spaces between its words. An
entry without words stays as it is. -/
def renameEntry (entry : Text) : Text :=
  match entry.words with
  | [] => entry
  | name :: rest => [' '].intercalate (names.rename name :: rest)

/-- Renames the animations of a list. -/
def renameList (value : Text) : Text :=
  [','].intercalate ((value.splitOn ',').map (renameEntry names))

/-- The value of a property with its references renamed: `animation` holds a list and
`animation-name` a single name. -/
def renameValue (property value : Text) : Text :=
  if property = "animation".toList then renameList names value
  else if property = "animation-name".toList then names.rename value
  else value

end ScopedStyles.Animation
