import ScopedStyles.FlatRule.Basic
import ScopedStyles.Text.Blank

/-!
# Parts of a flat rule

Between two delimiters stands one part of a flat rule: the head of a block, a declaration, or
nothing. Which of them may stand there is known from what comes before. A few blanks count for
nothing in front of a part; other blanks end a name and start no part.

## Main definitions

* `Part` — the parts.
* `Part.head`, `Part.step`, `Part.declaration`, `Part.nothing` — read the part between two
  delimiters, or hand back the text from the first character on that may not stand where it stands.
-/

namespace ScopedStyles

/-- What stands between two delimiters. -/
inductive Part
  | blank
  | style (selector : Text)
  | keyframes (name : Text)
  | group (type : GroupType) (query : Text)
  | declared (property value : Text)
  /-- The beginning of a part that needs more before any delimiter. -/
  | incomplete
  deriving DecidableEq, Repr

namespace Part

/-- Whether a character counts for nothing in front of a part. -/
def isIgnored (c : Char) : Bool :=
  c = ' ' || c = '\t' || c = '\n' || c = '\r' || c = '\x0c'

/-- A text without what counts for nothing in front of it. -/
def skip (t : Text) : Text :=
  t.dropWhile isIgnored

/-- Reads nothing at all. -/
def nothing (t : Text) : Except Text Part :=
  match skip t with
  | [] => .ok .blank
  | unread => .error unread

/-- Reads the selector of a style rule, which takes all that is left. -/
def step (t : Text) : Except Text Part :=
  match skip t with
  | [] => .ok .blank
  | c :: rest => if c = '@' || Text.isBlank c then .error (c :: rest) else .ok (.style (c :: rest))

/-- Reads the name of an animation, which holds no blank. -/
def name (t : Text) : Except Text Part :=
  match (skip t).takeWhile (!Text.isBlank ·) with
  | [] => match skip t with
    | [] => .ok .incomplete
    | unread => .error unread
  | name =>
    match skip ((skip t).dropWhile (!Text.isBlank ·)) with
    | [] => .ok (.keyframes name)
    | unread => .error unread

/-- Reads the query of a group, which takes all that is left. -/
def query (type : GroupType) (t : Text) : Except Text Part :=
  match skip t with
  | [] => .ok .incomplete
  | c :: rest => if Text.isBlank c then .error (c :: rest) else .ok (.group type (c :: rest))

/-- Reads the head of any rule. A keyword may be followed directly by the name or the query. -/
def head (t : Text) : Except Text Part :=
  match keyframesKeyword.isPrefixOf? (skip t) with
  | some rest => name rest
  | none =>
    match GroupType.media.keyword.isPrefixOf? (skip t) with
    | some rest => query .media rest
    | none =>
      match GroupType.supports.keyword.isPrefixOf? (skip t) with
      | some rest => query .supports rest
      | none => step t

/-- Reads a declaration. The property reaches up to the first colon, and the value, which must not
be empty, takes all that is left. -/
def declaration (t : Text) : Except Text Part :=
  match skip t with
  | [] => .ok .blank
  | c :: rest =>
    if c = '@' || c = ':' || Text.isBlank c then .error (c :: rest)
    else
      match Text.cutAt? ':' (c :: rest) with
      | none | some (_, []) => .ok .incomplete
      | some (property, value) => .ok (.declared property value)

end Part

end ScopedStyles
