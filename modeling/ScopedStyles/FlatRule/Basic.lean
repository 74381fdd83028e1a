import ScopedStyles.Rule.Basic

/-!
# Flat rules

A sheet holds flat rules: style rules whose blocks hold declarations and nothing else, animations
made of such rules, and groups of flat rules. Their parts are kept as they are written, so a
selector, a property or a query may end in blanks and a value may start with them.

## Main definitions

* `StyleRule`, `FlatRule` — the rules.
* `FlatRule.text` — a rule as it is written.
-/

namespace ScopedStyles

/-- A selector with its declarations. -/
structure StyleRule where
  selector : Text
  declarations : List (Text × Text) := []
  deriving DecidableEq, Repr

/-- A flat rule. -/
inductive FlatRule
  | style (rule : StyleRule)
  | keyframes (name : Text) (steps : List StyleRule)
  | group (type : GroupType) (query : Text) (rules : List FlatRule)
  deriving Repr

mutual

/-- Whether two flat rules are equal. -/
def FlatRule.decEq : (a b : FlatRule) → Decidable (a = b)
  | .style r, .style r' => decidable_of_iff (r = r') (by simp)
  | .keyframes n s, .keyframes n' s' => decidable_of_iff (n = n' ∧ s = s') (by simp)
  | .group t q rs, .group t' q' rs' =>
    have := FlatRule.decEqList rs rs'
    decidable_of_iff (t = t' ∧ q = q' ∧ rs = rs') (by simp)
  | .style _, .keyframes _ _ | .style _, .group _ _ _ | .keyframes _ _, .style _
  | .keyframes _ _, .group _ _ _ | .group _ _ _, .style _ | .group _ _ _, .keyframes _ _ =>
    isFalse (by simp)

/-- Whether two lists of flat rules are equal. -/
def FlatRule.decEqList : (as bs : List FlatRule) → Decidable (as = bs)
  | [], [] => isTrue rfl
  | a :: as, b :: bs =>
    have := FlatRule.decEq a b
    have := FlatRule.decEqList as bs
    decidable_of_iff (a = b ∧ as = bs) (by simp)
  | [], _ :: _ | _ :: _, [] => isFalse (by simp)

end

instance : DecidableEq FlatRule :=
  FlatRule.decEq

/-- A style rule as it is written. -/
def StyleRule.text (rule : StyleRule) : Text :=
  rule.selector ++ '{' :: rule.declarations.flatMap (fun d => d.1 ++ ':' :: d.2 ++ [';']) ++ ['}']

mutual

/-- A flat rule as it is written, with one space after each keyword. -/
def FlatRule.text : FlatRule → Text
  | .style rule => rule.text
  | .keyframes name steps =>
    keyframesKeyword ++ ' ' :: name ++ '{' :: steps.flatMap StyleRule.text ++ ['}']
  | .group type query rules =>
    type.keyword ++ ' ' :: query ++ '{' :: FlatRule.bodyText rules ++ ['}']

/-- Flat rules as they are written, one after the other. -/
def FlatRule.bodyText : List FlatRule → Text
  | [] => []
  | rule :: rules => rule.text ++ FlatRule.bodyText rules

end

end ScopedStyles
