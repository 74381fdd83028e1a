import ScopedStyles.Rule.Basic
import ScopedStyles.Rule.Animation

/-!
# Printing rules

Each rule of a tree is printed on its own as one flat rule, without line ends or spare blanks. A
group is printed with the rules that it holds.

## Main definitions

* `Dictionary.declarationText` — declarations, each with its semicolon.
* `Rule.text` — a rule.
* `RuleTree.texts` — the rules of a tree.
-/

namespace ScopedStyles

/-- The text of declarations, in their order. -/
def Dictionary.declarationText (declarations names : Dictionary) : Text :=
  declarations.entries.flatMap fun entry =>
    entry.1 ++ ':' :: Animation.renameValue names entry.1 entry.2 ++ [';']

variable (names : Dictionary)

/-- The text of a rule set. -/
def RuleSet.text (rule : RuleSet) : Text :=
  rule.selector ++ '{' :: rule.declarations.declarationText names ++ ['}']

mutual

/-- The text of a rule. -/
def Rule.text : Rule → Text
  | .ruleSet rule => rule.text names
  | .keyframes identifier steps =>
    keyframesKeyword ++ ' ' :: identifier ++ '{' :: steps.flatMap (RuleSet.text names) ++ ['}']
  | .group type query rules =>
    type.keyword ++ ' ' :: query ++ ' ' :: '{' :: Rule.bodyText rules ++ ['}']

/-- The text of rules without anything between them. -/
def Rule.bodyText : List Rule → Text
  | [] => []
  | rule :: rules => rule.text ++ Rule.bodyText rules

end

/-- The texts of the rules of a tree. -/
def RuleTree.texts (tree : RuleTree) : List Text :=
  tree.rules.map (Rule.text tree.keyframes)

theorem Rule.bodyText_eq_flatMap (rules : List Rule) :
    Rule.bodyText names rules = rules.flatMap (Rule.text names) := by
  induction rules with
  | nil => simp [Rule.bodyText]
  | cons rule rules ih => simp [Rule.bodyText, ih]

end ScopedStyles
