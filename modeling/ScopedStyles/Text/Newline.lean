import ScopedStyles.Text.Basic

/-!
# Line ends

Three spellings of a line end are in use: a line feed, a carriage return, and the two in a row.

## Main definitions

* `Text.unifyNewlines` — every line end as a line feed.
-/

namespace ScopedStyles.Text

/-- Every line end as a line feed. -/
def unifyNewlines : Text → Text
  | [] => []
  | '\r' :: '\n' :: rest => '\n' :: unifyNewlines rest
  | c :: rest => (if c = '\r' then '\n' else c) :: unifyNewlines rest

end ScopedStyles.Text
