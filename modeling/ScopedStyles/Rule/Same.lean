import ScopedStyles.Rule.Basic

/-!
# Equality of rule trees

Rules and steps count in their order; declarations, and the names of animations, in any order.

## Main definitions

* `RuleTree.same` — whether two trees say the same.
-/

namespace ScopedStyles

/-- Whether two rule sets say the same. -/
def RuleSet.same (a b : RuleSet) : Bool :=
  a.selector = b.selector && a.declarations.same b.declarations

/-- Whether two lists of rule sets say the same, one by one. -/
def RuleSet.sameAll : List RuleSet → List RuleSet → Bool
  | [], [] => true
  | a :: as, b :: bs => a.same b && sameAll as bs
  | _, _ => false

mutual

/-- Whether two rules are of one kind and say the same. -/
def Rule.same : Rule → Rule → Bool
  | .ruleSet a, .ruleSet b => a.same b
  | .keyframes i steps, .keyframes j steps' => i = j && RuleSet.sameAll steps steps'
  | .group t q rules, .group t' q' rules' => t = t' && q = q' && Rule.sameAll rules rules'
  | _, _ => false

/-- Whether two lists of rules say the same, one by one. -/
def Rule.sameAll : List Rule → List Rule → Bool
  | [], [] => true
  | a :: as, b :: bs => a.same b && Rule.sameAll as bs
  | _, _ => false

end

/-- Whether two trees say the same. -/
def RuleTree.same (a b : RuleTree) : Bool :=
  Rule.sameAll a.rules b.rules && a.keyframes.same b.keyframes

end ScopedStyles
