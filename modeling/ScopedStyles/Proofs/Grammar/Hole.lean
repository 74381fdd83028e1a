import ScopedStyles.Proofs.Grammar.Concatenation

/-!
# Contents around an animation

An animation stands in a body, and this one in groups. The content of a source with the content of
the animation left open is a hole, and filling it with different contents gives sources that differ
in one animation only. The rule tree takes two things from the content in the hole: its steps, which
go to the animation, and what is declared directly in it, which goes to the body around the
animation.

## Main definitions

* `Hole`, `Hole.fill` — a content without the content of one animation, and with it.
* `Hole.declared` — what is declared for the body around the animation.
* `RuleTree.OtherSteps` — rule trees that differ in the steps of one animation.

## Main statements

* `Hole.otherSteps_tree_iff` — when the rule trees of two contents differ in the steps only.
-/

namespace ScopedStyles

/-! ## Rule trees that differ in the steps of one animation -/

/-- Rules that are the same, except that one animation among them, at any depth, has other steps. -/
inductive Rule.OtherSteps (identifier : Text) (steps steps' : List RuleSet) :
    List Rule → List Rule → Prop
  | here (front back : List Rule) :
      OtherSteps identifier steps steps' (front ++ .keyframes identifier steps :: back)
        (front ++ .keyframes identifier steps' :: back)
  | inside (front : List Rule) (type : GroupType) (query : Text) {rules rules' : List Rule}
      (h : OtherSteps identifier steps steps' rules rules') (back : List Rule) :
      OtherSteps identifier steps steps' (front ++ .group type query rules :: back)
        (front ++ .group type query rules' :: back)

/-- Rule trees that are the same, except that one animation has other steps. -/
structure RuleTree.OtherSteps (identifier : Text) (steps steps' : List RuleSet)
    (tree tree' : RuleTree) : Prop where
  rules : Rule.OtherSteps identifier steps steps' tree.rules tree'.rules
  keyframes : tree.keyframes = tree'.keyframes

mutual

/-- A rule without the steps of its animations. -/
def Rule.withoutSteps : Rule → Rule
  | .ruleSet rule => .ruleSet rule
  | .keyframes identifier _ => .keyframes identifier []
  | .group type query rules => .group type query (Rule.allWithoutSteps rules)

/-- Rules without the steps of their animations. -/
def Rule.allWithoutSteps : List Rule → List Rule
  | [] => []
  | rule :: rules => rule.withoutSteps :: Rule.allWithoutSteps rules

end

namespace Rule

theorem allWithoutSteps_eq_map (rules : List Rule) :
    allWithoutSteps rules = rules.map withoutSteps := by
  induction rules with
  | nil => rfl
  | cons rule rules ih => simp [allWithoutSteps, ih]

theorem allWithoutSteps_append (a b : List Rule) :
    allWithoutSteps (a ++ b) = allWithoutSteps a ++ allWithoutSteps b := by
  simp [allWithoutSteps_eq_map]

theorem length_allWithoutSteps (rules : List Rule) :
    (allWithoutSteps rules).length = rules.length := by
  simp [allWithoutSteps_eq_map]

namespace OtherSteps

variable {identifier : Text} {steps steps' : List RuleSet} {rules rules' : List Rule}

theorem append_left (h : OtherSteps identifier steps steps' rules rules') (front : List Rule) :
    OtherSteps identifier steps steps' (front ++ rules) (front ++ rules') := by
  cases h with
  | here front' back =>
    rw [← List.append_assoc, ← List.append_assoc]
    exact .here (front ++ front') back
  | inside front' type query h back =>
    rw [← List.append_assoc, ← List.append_assoc]
    exact .inside (front ++ front') type query h back

theorem append_right (h : OtherSteps identifier steps steps' rules rules') (back : List Rule) :
    OtherSteps identifier steps steps' (rules ++ back) (rules' ++ back) := by
  cases h with
  | here front back' =>
    rw [List.append_assoc, List.append_assoc]
    exact .here front (back' ++ back)
  | inside front type query h back' =>
    rw [List.append_assoc, List.append_assoc]
    exact .inside front type query h (back' ++ back)

/-- Without the steps the rules are the same. -/
theorem allWithoutSteps_eq (h : OtherSteps identifier steps steps' rules rules') :
    allWithoutSteps rules = allWithoutSteps rules' := by
  induction h with
  | here front back => simp [allWithoutSteps_append, allWithoutSteps, withoutSteps]
  | inside front type query _ back ih =>
    simp [allWithoutSteps_append, allWithoutSteps, withoutSteps, ih]

end OtherSteps

end Rule

/-! ## Contents -/

theorem RuleSet.kept_eq_iff {selector : Text} {declarations declarations' : List (Text × Text)} :
    kept selector declarations = kept selector declarations' ↔
      Dictionary.ofList declarations = Dictionary.ofList declarations' := by
  have hempty : ∀ d : Dictionary, d.isEmpty = true → d = ∅ := by
    rintro ⟨_ | _⟩ h
    · rfl
    · cases h
  rw [kept_eq, kept_eq, Dictionary.ofList, Dictionary.ofList]
  constructor
  · intro h
    split at h <;> split at h
    · next h₁ h₂ => rw [hempty _ h₁, hempty _ h₂]
    · cases h
    · cases h
    · simpa using h
  · intro h
    rw [h]

namespace Content

variable {scope : Text}

theorem append_assoc (a b c : Content) : (a.append b).append c = a.append (b.append c) := by
  induction a with
  | nil => rfl
  | declaration property value rest ih => simp [append, ih]
  | block head inner rest _ ih => simp [append, ih]

theorem own_eq_iff {c c' : Content} :
    c.own scope = c'.own scope ↔
      Dictionary.ofList c.declarations = Dictionary.ofList c'.declarations := by
  have hinjective : Function.Injective (List.map Rule.ruleSet) :=
    List.map_injective_iff.2 fun _ _ h => Rule.ruleSet.inj h
  rw [own, own, hinjective.eq_iff, RuleSet.kept_eq_iff]

theorem allWithoutSteps_own (c : Content) : Rule.allWithoutSteps (c.own scope) = c.own scope := by
  rw [Rule.allWithoutSteps_eq_map, own, List.map_map]
  rfl

end Content

/-! ## Holes -/

/-- The content of a body, with the content of one animation left open. -/
inductive Hole
  /-- The animation stands directly in the body. -/
  | here (front : Content) (name : Text) (back : Content)
  /-- It stands in a group of the body. -/
  | inside (front : Content) (type : GroupType) (query : Text) (inner : Hole) (back : Content)

namespace Hole

/-- The whole content, where the animation has a given one. -/
def fill : Hole → Content → Content
  | here front name back, c => front.append (.block (.keyframes name) c back)
  | inside front type query hole back, c =>
    front.append (.block (.group type query) (hole.fill c) back)

/-- The name of the animation. -/
def name : Hole → Text
  | here _ name _ => name
  | inside _ _ _ hole _ => hole.name

/-- What is declared for the body around the animation, in it and in the content of the
animation. -/
def declared : Hole → Content → List (Text × Text)
  | here front _ back, c => front.declarations ++ (c.declarations ++ back.declarations)
  | inside _ _ _ hole _, c => hole.declared c

/-- A hole behind some more content. -/
def behind (c : Content) : Hole → Hole
  | here front name back => here (c.append front) name back
  | inside front type query hole back => inside (c.append front) type query hole back

theorem fill_behind (c : Content) (hole : Hole) (inner : Content) :
    (hole.behind c).fill inner = c.append (hole.fill inner) := by
  cases hole <;> simp [behind, fill, Content.append_assoc]

theorem name_behind (c : Content) (hole : Hole) : (hole.behind c).name = hole.name := by
  cases hole <;> rfl

variable {scope : Text} {c c' : Content}

/-- The body around the animation takes from its content what is declared directly in it. -/
theorem declared_congr (hole : Hole) (h : c.declarations = c'.declarations) :
    hole.declared c = hole.declared c' := by
  induction hole with
  | here front name back => rw [declared, declared, h]
  | inside front type query hole back ih => exact ih

theorem length_rules_fill (hole : Hole) (c c' : Content) :
    ((hole.fill c).rules scope).length = ((hole.fill c').rules scope).length := by
  cases hole <;> simp [fill, Content.rules_append, Content.rules]

theorem names_fill (hole : Hole) (c c' : Content) : (hole.fill c).names = (hole.fill c').names := by
  induction hole with
  | here front name back => simp [fill, Content.names_append, Content.names]
  | inside front type query hole back ih => simp [fill, Content.names_append, Content.names, ih]

theorem own_fill_here_iff {front back : Content} {name : Text} :
    ((here front name back).fill c).own scope = ((here front name back).fill c').own scope ↔
      Dictionary.ofList ((here front name back).declared c) =
        Dictionary.ofList ((here front name back).declared c') := by
  simp [Content.own_eq_iff, fill, declared, Content.declarations_append, Content.declarations]

/-- What is declared in a group makes no difference to the body around the group. -/
theorem own_fill_inside (front : Content) (type : GroupType) (query : Text) (hole : Hole)
    (back c c' : Content) :
    ((inside front type query hole back).fill c).own scope =
      ((inside front type query hole back).fill c').own scope := by
  simp [Content.own_eq_iff, fill, Content.declarations_append, Content.declarations]

/-- If the same is declared around the animation, the rules differ in its steps only. -/
theorem otherSteps_rules (hole : Hole)
    (h : Dictionary.ofList (hole.declared c) = Dictionary.ofList (hole.declared c')) :
    (hole.fill c).own scope = (hole.fill c').own scope ∧
      Rule.OtherSteps (qualify scope hole.name) c.steps c'.steps ((hole.fill c).rules scope)
        ((hole.fill c').rules scope) := by
  induction hole with
  | here front name back =>
    refine ⟨own_fill_here_iff.2 h, ?_⟩
    simp only [fill, Content.rules_append, Content.rules]
    exact .here _ _
  | inside front type query hole back ih =>
    refine ⟨own_fill_inside front type query hole back c c', ?_⟩
    obtain ⟨hown, hrules⟩ := ih h
    simp only [fill, Content.rules_append, Content.rules, hown]
    exact .inside _ type query (hrules.append_left _) _

/-- If the rules differ in steps only, the same is declared around the animation. -/
theorem declared_eq_of_withoutSteps (hole : Hole)
    (hown : (hole.fill c).own scope = (hole.fill c').own scope)
    (hrules : Rule.allWithoutSteps ((hole.fill c).rules scope) =
      Rule.allWithoutSteps ((hole.fill c').rules scope)) :
    Dictionary.ofList (hole.declared c) = Dictionary.ofList (hole.declared c') := by
  induction hole with
  | here front name back => exact own_fill_here_iff.1 hown
  | inside front type query hole back ih =>
    simp only [fill, Content.rules_append, Content.rules, Rule.allWithoutSteps_append,
      Rule.allWithoutSteps, Rule.withoutSteps, List.append_cancel_left_eq, List.cons.injEq,
      Rule.group.injEq, true_and, and_true, Content.allWithoutSteps_own] at hrules
    have hlength : (Rule.allWithoutSteps ((hole.fill c).rules scope)).length =
        (Rule.allWithoutSteps ((hole.fill c').rules scope)).length := by
      rw [Rule.length_allWithoutSteps, Rule.length_allWithoutSteps, hole.length_rules_fill c c']
    obtain ⟨hown, hrules⟩ := List.append_inj' hrules hlength
    exact ih hown hrules

/-- The rule trees of two contents that fill a hole differ in the steps of the animation only,
exactly if they come to the same declarations for the body around it. -/
theorem otherSteps_tree_iff (hole : Hole) (c c' : Content) :
    RuleTree.OtherSteps (qualify scope hole.name) c.steps c'.steps ((hole.fill c).tree scope)
        ((hole.fill c').tree scope) ↔
      Dictionary.ofList (hole.declared c) = Dictionary.ofList (hole.declared c') := by
  constructor
  · rintro ⟨hrules, -⟩
    have hsame := hrules.allWithoutSteps_eq
    simp only [Content.tree, Rule.allWithoutSteps_append, Content.allWithoutSteps_own] at hsame
    have hlength : (Rule.allWithoutSteps ((hole.fill c).rules scope)).length =
        (Rule.allWithoutSteps ((hole.fill c').rules scope)).length := by
      rw [Rule.length_allWithoutSteps, Rule.length_allWithoutSteps, hole.length_rules_fill c c']
    obtain ⟨hrules, hown⟩ := List.append_inj hsame hlength
    exact hole.declared_eq_of_withoutSteps hown hrules
  · intro h
    obtain ⟨hown, hrules⟩ : (hole.fill c).own scope = (hole.fill c').own scope ∧ _ :=
      hole.otherSteps_rules h
    constructor
    · simp only [Content.tree, hown]
      exact hrules.append_right _
    · simp only [Content.tree, Content.identifiers, hole.names_fill c c']

end Hole

end ScopedStyles
