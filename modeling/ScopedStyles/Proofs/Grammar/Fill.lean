import ScopedStyles.Proofs.Grammar.Step

/-!
# Filling a draft

A content fills the block in which a draft stands: its declarations go to the innermost rule set,
step or body, its steps to the animation, its rules to the body, and its names to the table of
names. Filling a draft with a block is the same as opening the block, filling it and closing it.

## Main statements

* `Draft.fill` — a draft filled with a content.
* `Draft.fill_block` — blocks are filled one inside the other.
-/

namespace ScopedStyles

variable {scope : Text}

/-- A rule set is left out exactly if its dictionary is empty. -/
theorem RuleSet.kept_eq (selector : Text) (declarations : List (Text × Text)) :
    kept selector declarations =
      if (Dictionary.update ∅ ⟨declarations⟩).isEmpty then []
      else [⟨selector, .update ∅ ⟨declarations⟩⟩] := by
  cases declarations <;> simp [kept, Dictionary.ofList]

/-- A step is left out exactly if nothing is declared in it. -/
theorem RuleSet.append_kept (steps : List RuleSet) (selector : Text)
    (declarations : List (Text × Text)) :
    steps ++ kept selector declarations =
      if declarations = [] then steps
      else steps ++ [⟨selector, .update ∅ ⟨declarations⟩⟩] := by
  rw [kept]
  split
  · exact List.append_nil steps
  · rfl

/-- A rule set with more declarations. -/
def RuleSet.declareAll (rule : RuleSet) (declarations : List (Text × Text)) : RuleSet :=
  { rule with declarations := rule.declarations.update ⟨declarations⟩ }

namespace Body

/-- A body with more declarations and rules. -/
def extend (b : Body) (declarations : List (Text × Text)) (rules : List Rule) : Body where
  declarations := b.declarations.update ⟨declarations⟩
  rules := b.rules ++ rules

theorem add_eq_extend (b : Body) (rule : Rule) : b.add rule = b.extend [] [rule] := rfl

theorem addRuleSet_eq_extend (b : Body) (selector : Text) (declarations : List (Text × Text)) :
    b.addRuleSet ⟨selector, .update ∅ ⟨declarations⟩⟩ =
      b.extend [] ((RuleSet.kept selector declarations).map .ruleSet) := by
  rw [addRuleSet, RuleSet.kept_eq]
  split
  · simp [extend]
  · rfl

@[simp] theorem rules_extend_empty (declarations : List (Text × Text)) (rules : List Rule) :
    (extend {} declarations rules).rules = rules := rfl

/-- What a body that starts out empty says once it is full. -/
theorem ownRules_extend (scope : Text) (c : Content) :
    (extend {} c.declarations (c.rules scope)).ownRules scope = c.own scope := by
  rw [ownRules, Content.own, RuleSet.kept_eq, extend]
  split <;> rfl

theorem extend_extend (b : Body) (declarations declarations' : List (Text × Text))
    (rules rules' : List Rule) :
    (b.extend declarations rules).extend declarations' rules' =
      b.extend (declarations ++ declarations') (rules ++ rules') := by
  simp [extend, Dictionary.update_append]

end Body

namespace Draft

/-- A draft filled with a content. -/
def fill (scope : Text) (d : Draft) (c : Content) : Draft :=
  match d.place with
  | .body =>
    { d with
      body := d.body.extend c.declarations (c.rules scope)
      keyframes := d.keyframes.update ⟨c.identifiers scope⟩ }
  | .ruleSet current outer =>
    { d with
      place := .ruleSet (current.declareAll c.declarations) outer
      body := d.body.extend [] ((c.ruleSets current.selector).map .ruleSet) }
  | .keyframes name steps none =>
    { d with
      place := .keyframes name (steps ++ c.steps) none
      body := d.body.extend c.declarations [] }
  | .keyframes name steps (some step) =>
    { d with place := .keyframes name steps (some (step.declareAll c.declarations)) }

@[simp] theorem fill_nil (d : Draft) : d.fill scope .nil = d := by
  obtain ⟨body, place, groups, keyframes⟩ := d
  rcases place with _ | _ | ⟨_, _, _ | _⟩ <;>
    simp [fill, Content.declarations, Content.rules, Content.identifiers, Content.names,
      Content.ruleSets, Content.steps, Body.extend, RuleSet.declareAll]

theorem fill_declaration (d : Draft) (property value : Text) (rest : Content) :
    d.fill scope (.declaration property value rest) =
      (d.insert property value).fill scope rest := by
  obtain ⟨body, place, groups, keyframes⟩ := d
  rcases place with _ | _ | ⟨_, _, _ | _⟩ <;>
    simp [fill, insert, Content.declarations, Content.rules, Content.identifiers, Content.names,
      Content.ruleSets, Content.steps, Body.extend, Body.declare, RuleSet.declareAll,
      RuleSet.declare]

theorem fill_block {d : Draft} {head : Head} {inside : Level} (h : d.level.Holds head inside)
    (inner rest : Content) :
    d.fill scope (.block head inner rest) =
      (((d.enter scope head).fill scope inner).closeBlock scope).fill scope rest := by
  obtain ⟨body, place, groups, keyframes⟩ := d
  rcases place with _ | _ | ⟨_, _, _ | _⟩ <;> cases h
  case body.rule | ruleSet.nested =>
    simp [fill, enter, closeBlock, Content.declarations, Content.rules, Content.ruleSets,
      Content.identifiers, Content.names, RuleSet.declareAll, Body.addRuleSet_eq_extend,
      Body.extend_extend]
  case body.keyframes =>
    simp [fill, enter, closeBlock, Content.declarations, Content.rules, Content.identifiers,
      Content.names, Body.add_eq_extend, Body.extend_extend]
  case body.group =>
    simp [fill, enter, closeBlock, Content.declarations, Content.rules, Content.identifiers,
      Content.names, Body.add_eq_extend, Body.extend_extend, Body.ownRules_extend,
      Dictionary.update_append]
  case keyframes.none.step name steps selector =>
    simp [fill, enter, closeBlock, Content.declarations, Content.steps, RuleSet.declareAll,
      ← List.append_assoc, RuleSet.append_kept]

end Draft

end ScopedStyles
