import ScopedStyles.Rule.Printer

/-!
# Walking through a rule tree

A group holds rules, which may be groups in turn. A walk from left to right meets every rule of a
tree, whatever its depth, and a group before the rules in it.

## Main definitions

* `RuleTree.walk` — the rules of a tree at any depth.
* `RuleTree.identifiers` — the names under which the animations of a tree are known outside.
* `RuleTree.blocks` — the rule sets and steps of a tree at any depth.
* `RuleTree.Prints` — what stands somewhere in the printed rules of a tree.

## Main statements

* `RuleTree.prints_of_mem_walk`, `RuleTree.prints_of_mem_blocks` — what stands at any depth is
  printed.
-/

namespace ScopedStyles

mutual

/-- A rule and all rules in it. -/
def Rule.walk : Rule → List Rule
  | .ruleSet rule => [.ruleSet rule]
  | .keyframes identifier steps => [.keyframes identifier steps]
  | .group type query rules => .group type query rules :: Rule.walkAll rules

/-- Some rules and all rules in them. -/
def Rule.walkAll : List Rule → List Rule
  | [] => []
  | rule :: rules => rule.walk ++ Rule.walkAll rules

end

/-- The name of an animation. -/
def Rule.identifier? : Rule → Option Text
  | .keyframes identifier _ => some identifier
  | .ruleSet _ | .group _ _ _ => none

/-- What holds the declarations of a rule, apart from the rules in it. -/
def Rule.blocks : Rule → List RuleSet
  | .ruleSet rule => [rule]
  | .keyframes _ steps => steps
  | .group _ _ _ => []

namespace RuleTree

/-- The rules of a tree at any depth. -/
def walk (tree : RuleTree) : List Rule :=
  Rule.walkAll tree.rules

/-- The names of the animations of a tree, one for each animation. -/
def identifiers (tree : RuleTree) : List Text :=
  tree.walk.filterMap Rule.identifier?

/-- The rule sets and steps of a tree at any depth. -/
def blocks (tree : RuleTree) : List RuleSet :=
  tree.walk.flatMap Rule.blocks

/-- A text stands somewhere in the printed rules of a tree. -/
def Prints (tree : RuleTree) (t : Text) : Prop :=
  ∃ text ∈ tree.texts, t <:+: text

end RuleTree

@[simp] theorem Rule.walkAll_append (a b : List Rule) :
    walkAll (a ++ b) = walkAll a ++ walkAll b := by
  induction a with
  | nil => rfl
  | cons rule a ih => simp [walkAll, ih]

@[simp] theorem Rule.walkAll_map_ruleSet (rules : List RuleSet) :
    walkAll (rules.map .ruleSet) = rules.map .ruleSet := by
  induction rules with
  | nil => rfl
  | cons rule rules ih => simp [walkAll, walk, ih]

@[simp] theorem Rule.identifier?_ruleSet (rule : RuleSet) : identifier? (.ruleSet rule) = none :=
  rfl

@[simp] theorem Rule.identifier?_keyframes (identifier : Text) (steps : List RuleSet) :
    identifier? (.keyframes identifier steps) = some identifier := rfl

@[simp] theorem Rule.identifier?_group (type : GroupType) (query : Text) (rules : List Rule) :
    identifier? (.group type query rules) = none := rfl

theorem Rule.mem_walkAll {rules : List Rule} {r : Rule} :
    r ∈ walkAll rules ↔ ∃ rule ∈ rules, r ∈ rule.walk := by
  induction rules with
  | nil => simp [walkAll]
  | cons rule rules ih => simp [walkAll, ih]

section

variable (names : Dictionary)

mutual

/-- A rule in a rule is printed within it. -/
theorem Rule.text_infix_of_mem_walk {r : Rule} (rule : Rule) (h : r ∈ rule.walk) :
    r.text names <:+: rule.text names := by
  cases rule with
  | ruleSet own =>
    obtain rfl := List.mem_singleton.1 h
    exact List.infix_rfl
  | keyframes identifier steps =>
    obtain rfl := List.mem_singleton.1 h
    exact List.infix_rfl
  | group type query rules =>
    rcases List.mem_cons.1 h with rfl | h
    · exact List.infix_rfl
    · have hbody := Rule.text_infix_of_mem_walkAll rules h
      have hblock : Rule.bodyText names rules <:+: Rule.text names (.group type query rules) :=
        ⟨type.keyword ++ ' ' :: query ++ [' ', '{'], ['}'], by simp [Rule.text]⟩
      exact hbody.trans hblock

theorem Rule.text_infix_of_mem_walkAll {r : Rule} (rules : List Rule) (h : r ∈ Rule.walkAll rules) :
    r.text names <:+: Rule.bodyText names rules := by
  cases rules with
  | nil => simp [Rule.walkAll] at h
  | cons rule rules =>
    rcases List.mem_append.1 h with h | h
    · exact (Rule.text_infix_of_mem_walk rule h).trans (List.prefix_append ..).isInfix
    · exact (Rule.text_infix_of_mem_walkAll rules h).trans (List.suffix_append ..).isInfix

end

theorem Rule.text_infix_of_mem_blocks {rule : Rule} {block : RuleSet} (h : block ∈ rule.blocks) :
    block.text names <:+: rule.text names := by
  cases rule with
  | ruleSet own =>
    obtain rfl := List.mem_singleton.1 h
    exact List.infix_rfl
  | keyframes identifier steps =>
    obtain ⟨a, b, rfl⟩ : ∃ a b, steps = a ++ block :: b := List.append_of_mem h
    exact ⟨keyframesKeyword ++ ' ' :: identifier ++ '{' :: a.flatMap (RuleSet.text names),
      b.flatMap (RuleSet.text names) ++ ['}'], by simp [Rule.text]⟩
  | group type query rules => simp [Rule.blocks] at h

end

namespace RuleTree

variable {tree : RuleTree}

theorem prints_of_mem_walk {rule : Rule} (h : rule ∈ tree.walk) :
    tree.Prints (rule.text tree.keyframes) := by
  obtain ⟨top, htop, hrule⟩ := Rule.mem_walkAll.1 h
  exact ⟨top.text tree.keyframes, List.mem_map_of_mem htop,
    Rule.text_infix_of_mem_walk tree.keyframes top hrule⟩

theorem prints_of_mem_blocks {block : RuleSet} (h : block ∈ tree.blocks) :
    tree.Prints (block.text tree.keyframes) := by
  obtain ⟨rule, hrule, hblock⟩ := List.mem_flatMap.1 h
  obtain ⟨text, htext, hinfix⟩ := prints_of_mem_walk hrule
  exact ⟨text, htext, (Rule.text_infix_of_mem_blocks tree.keyframes hblock).trans hinfix⟩

/-- For each of its identifiers, a tree prints an animation that goes by it. -/
theorem exists_prints_of_mem_identifiers {identifier : Text} (h : identifier ∈ tree.identifiers) :
    ∃ steps, tree.Prints (Rule.text tree.keyframes (.keyframes identifier steps)) := by
  obtain ⟨rule, hrule, hidentifier⟩ := List.mem_filterMap.1 h
  cases rule with
  | keyframes own steps =>
    obtain rfl := Option.some.inj hidentifier
    exact ⟨steps, prints_of_mem_walk hrule⟩
  | ruleSet _ | group _ _ _ => cases hidentifier

end RuleTree

end ScopedStyles
