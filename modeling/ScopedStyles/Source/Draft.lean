import ScopedStyles.Selector
import ScopedStyles.Delimiter
import ScopedStyles.Source.Fault
import ScopedStyles.Source.Header

/-!
# Drafts of a rule tree

While a source is read, some blocks are open. A draft holds what has been read: the body that is
being filled, the groups around it, and the place in the body where the reading stands. Rule sets
nest in rule sets and steps stand in animations, but neither holds an at-rule, so within a body
there is one chain of open rule sets, or one animation, or nothing.

## Main definitions

* `Body`, `Place`, `Draft` — what has been read, and what is open.
* `Draft.read` — reads a chunk.
* `Draft.finish` — the rule tree at the end of the source.
-/

namespace ScopedStyles

/-- The declarations and rules that stand directly in the source or in a group. -/
structure Body where
  declarations : Dictionary := ∅
  rules : List Rule := []

/-- A group whose block is open, with the body in which it stands. -/
structure OpenGroup where
  type : GroupType
  query : Text
  outer : Body

/-- Where in a body the reading stands. -/
inductive Place
  /-- Directly in the body. -/
  | body
  /-- In a rule set, which stands in other rule sets, the innermost of them first. -/
  | ruleSet (current : RuleSet) (outer : List RuleSet)
  /-- In an animation, between its steps or in one of them. -/
  | keyframes (name : Text) (steps : List RuleSet) (step : Option RuleSet)

/-- What has been read of a source. -/
structure Draft where
  /-- The innermost body. -/
  body : Body := {}
  place : Place := .body
  /-- The open groups, the innermost first. -/
  groups : List OpenGroup := []
  /-- The qualified names of the animations met so far. -/
  keyframes : Dictionary := ∅

/-- A rule set with one more declaration. -/
def RuleSet.declare (rule : RuleSet) (property value : Text) : RuleSet :=
  { rule with declarations := rule.declarations.insert property value }

namespace Body

/-- A body with one more declaration. -/
def declare (b : Body) (property value : Text) : Body :=
  { b with declarations := b.declarations.insert property value }

/-- A body with one more rule. -/
def add (b : Body) (rule : Rule) : Body :=
  { b with rules := b.rules ++ [rule] }

/-- A body with one more rule set, unless that declares nothing. -/
def addRuleSet (b : Body) (rule : RuleSet) : Body :=
  if rule.declarations.isEmpty then b else b.add (.ruleSet rule)

/-- The rule set that a body's own declarations make for the scope's class. -/
def ownRules (scope : Text) (b : Body) : List Rule :=
  if b.declarations.isEmpty then []
  else [.ruleSet ⟨Selector.ofScope scope, b.declarations⟩]

end Body

namespace Draft

/-- Whether no block is open. -/
def atTop (d : Draft) : Bool :=
  match d.place, d.groups with
  | .body, [] => true
  | _, _ => false

/-- Adds a declaration to the innermost open rule set or step, or else to the body. -/
def insert (d : Draft) (property value : Text) : Draft :=
  match d.place with
  | .ruleSet current outer => { d with place := .ruleSet (current.declare property value) outer }
  | .keyframes name steps (some step) =>
    { d with place := .keyframes name steps (some (step.declare property value)) }
  | .keyframes _ _ none | .body => { d with body := d.body.declare property value }

/-- Reads a declaration. -/
def declare (d : Draft) (text : Text) : Except Fault Draft :=
  match Source.declaration? text with
  | some (property, value) => .ok (d.insert property value)
  | none => .error (.invalidDeclaration text)

/-- Reads a last declaration whose semicolon was left out. Blanks alone are none. -/
def declareLast (d : Draft) (text : Text) : Except Fault Draft :=
  if text.trim = [] then .ok d else d.declare text.trim

variable (scope : Text)

/-- Opens the block of a header. -/
def openBlock (d : Draft) (header : Text) : Except Fault Draft :=
  if header = [] then .error (.unexpectedOpenBrace header)
  else
    match d.place, Header.ofText header with
    | .body, .keyframes name =>
      .ok { d with
        place := .keyframes name [] none
        keyframes := d.keyframes.insert name (qualify scope name) }
    | .body, .group type query =>
      .ok { d with body := {}, groups := ⟨type, query, d.body⟩ :: d.groups }
    | .body, .unknown => .error (.disallowedAtRule header)
    | .body, .selector =>
      .ok { d with place := .ruleSet ⟨Selector.attach (Selector.ofScope scope) header, ∅⟩ [] }
    | .ruleSet current outer, .selector =>
      .ok { d with
        place := .ruleSet ⟨Selector.attach current.selector header, ∅⟩ (current :: outer) }
    | .keyframes name steps none, .selector =>
      .ok { d with place := .keyframes name steps (some ⟨header, ∅⟩) }
    | .keyframes _ _ (some _), .selector => .error (.unexpectedOpenBrace header)
    | _, _ => .error (.unexpectedAtRule header)

/-- Closes the innermost open block. Rule sets and steps without declarations are left out, and a
group's own declarations come before its rules. -/
def closeBlock (d : Draft) : Draft :=
  match d.place with
  | .ruleSet current [] => { d with place := .body, body := d.body.addRuleSet current }
  | .ruleSet current (next :: outer) =>
    { d with place := .ruleSet next outer, body := d.body.addRuleSet current }
  | .keyframes name steps (some step) =>
    { d with
      place := .keyframes name
        (if step.declarations.isEmpty then steps else steps ++ [step]) none }
  | .keyframes name steps none =>
    { d with place := .body, body := d.body.add (.keyframes (qualify scope name) steps) }
  | .body =>
    match d.groups with
    | [] => d
    | group :: outer =>
      let rules := d.body.ownRules scope ++ d.body.rules
      { d with body := group.outer.add (.group group.type group.query rules), groups := outer }

/-- Reads a chunk. -/
def read (d : Draft) (text : Text) : Delimiter → Except Fault Draft
  | .semicolon => d.declare text
  | .openBrace => d.openBlock scope text.trim
  | .closeBrace =>
    if d.atTop then .error .unbalancedCloseBrace
    else (d.declareLast text).map (closeBlock scope)

/-- The rule tree at the end of a source. The declarations that stand outside all blocks come
last. -/
def finish (d : Draft) (text : Text) : Except Fault RuleTree :=
  if d.atTop then
    (d.declareLast text).map fun d => ⟨d.body.rules ++ d.body.ownRules scope, d.keyframes⟩
  else .error .unclosedBlock

end Draft

end ScopedStyles
