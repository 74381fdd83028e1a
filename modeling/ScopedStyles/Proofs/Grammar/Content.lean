import ScopedStyles.Rule.Basic
import ScopedStyles.Selector

/-!
# The content of a source

A source says a row of declarations and blocks, and so does each of its blocks. What the content of
a block means is defined by recursion on it: there are no stacks here and nothing is ever open.

## Main definitions

* `Head`, `Content` — what opens a block, and what stands in one.
* `Content.declarations`, `Content.ruleSets`, `Content.steps`, `Content.rules` — what a content
  gives to the block around it.
* `Content.tree` — the rule tree of a whole source.
-/

namespace ScopedStyles

/-- What opens a block. -/
inductive Head
  | selector (text : Text)
  | keyframes (name : Text)
  | group (type : GroupType) (query : Text)
  deriving DecidableEq, Repr

/-- Declarations and blocks in their order. -/
inductive Content
  | nil
  | declaration (property value : Text) (rest : Content)
  | block (head : Head) (inner rest : Content)
  deriving DecidableEq, Repr

/-- A rule set with the given declarations, which is left out if there are none. Of two
declarations of one property the later one counts, in the place of the earlier one. -/
def RuleSet.kept (selector : Text) (declarations : List (Text × Text)) : List RuleSet :=
  if declarations = [] then [] else [⟨selector, .ofList declarations⟩]

namespace Content

/-- What is declared for the block around a content. An animation keeps nothing that is declared
directly in it, so that this is declared for the block around the animation. -/
def declarations : Content → List (Text × Text)
  | nil => []
  | declaration property value rest => (property, value) :: rest.declarations
  | block (.keyframes _) inner rest => inner.declarations ++ rest.declarations
  | block _ _ rest => rest.declarations

/-- The rule sets in the content of a rule set. Each comes after the rule sets in its own content,
and its selector is the one around it with its own attached. -/
def ruleSets (outer : Text) : Content → List RuleSet
  | nil => []
  | block (.selector part) inner rest =>
    inner.ruleSets (Selector.attach outer part) ++
      (RuleSet.kept (Selector.attach outer part) inner.declarations ++ rest.ruleSets outer)
  | declaration _ _ rest | block _ _ rest => rest.ruleSets outer

/-- The steps in the content of an animation. -/
def steps : Content → List RuleSet
  | nil => []
  | block (.selector selector) inner rest =>
    RuleSet.kept selector inner.declarations ++ rest.steps
  | declaration _ _ rest | block _ _ rest => rest.steps

variable (scope : Text)

/-- The rule set that the declarations of a body make for the scope's class. -/
def own (c : Content) : List Rule :=
  (RuleSet.kept (Selector.ofScope scope) c.declarations).map .ruleSet

/-- The rules in a body, which is the content of a group or of a whole source. A group starts with
what is declared directly in it. -/
def rules : Content → List Rule
  | nil => []
  | declaration _ _ rest => rest.rules
  | block (.selector part) inner rest =>
    ((block (.selector part) inner nil).ruleSets (Selector.ofScope scope)).map .ruleSet ++
      rest.rules
  | block (.keyframes name) inner rest =>
    .keyframes (qualify scope name) inner.steps :: rest.rules
  | block (.group type query) inner rest =>
    .group type query (inner.own scope ++ inner.rules) :: rest.rules

/-- The names of the animations in a body, those in its groups included. -/
def names : Content → List Text
  | nil => []
  | block (.keyframes name) _ rest => name :: rest.names
  | block (.group _ _) inner rest => inner.names ++ rest.names
  | declaration _ _ rest | block _ _ rest => rest.names

/-- The qualified name under each name. -/
def identifiers (c : Content) : List (Text × Text) :=
  c.names.map fun name => (name, qualify scope name)

/-- The rule tree of a whole source. What is declared outside all blocks comes last. -/
def tree (c : Content) : RuleTree where
  rules := c.rules scope ++ c.own scope
  keyframes := .ofList (c.identifiers scope)

end Content

end ScopedStyles
