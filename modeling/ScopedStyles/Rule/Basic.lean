import ScopedStyles.Dictionary

/-!
# Rules

A scoped source is read into a tree of rules: rule sets, animations, and groups of rules under a
condition.

## Main definitions

* `RuleSet` — a selector with its declarations; the steps of an animation are rule sets too.
* `Rule` — a rule of any kind.
* `RuleTree` — the rules of a source and the qualified names of its animations.
-/

namespace ScopedStyles

/-- The at-rules that hold other rules. -/
inductive GroupType
  | media
  | supports
  deriving DecidableEq, Repr

/-- The keyword that opens a group. -/
def GroupType.keyword : GroupType → Text
  | .media => "@media".toList
  | .supports => "@supports".toList

theorem GroupType.keyword_media : GroupType.media.keyword = ['@', 'm', 'e', 'd', 'i', 'a'] := rfl

theorem GroupType.keyword_supports :
    GroupType.supports.keyword = ['@', 's', 'u', 'p', 'p', 'o', 'r', 't', 's'] := rfl

/-- The keyword that opens an animation. -/
def keyframesKeyword : Text :=
  "@keyframes".toList

theorem keyframesKeyword_eq :
    keyframesKeyword = ['@', 'k', 'e', 'y', 'f', 'r', 'a', 'm', 'e', 's'] := rfl

@[simp] theorem isPrefixOf?_keyframesKeyword (t : Text) :
    keyframesKeyword.isPrefixOf? (keyframesKeyword ++ t) = some t := rfl

@[simp] theorem GroupType.isPrefixOf?_keyword (type : GroupType) (t : Text) :
    type.keyword.isPrefixOf? (type.keyword ++ t) = some t := by
  cases type <;> rfl

@[simp] theorem isPrefixOf?_keyframesKeyword_group (type : GroupType) (t : Text) :
    keyframesKeyword.isPrefixOf? (type.keyword ++ t) = none := by
  cases type <;> rfl

@[simp] theorem GroupType.isPrefixOf?_media_supports (t : Text) :
    media.keyword.isPrefixOf? (supports.keyword ++ t) = none := rfl

/-- A text that starts like no at-rule starts with no keyword. -/
theorem isPrefixOf?_eq_none {keyword t : Text} (hkeyword : keyword.head? = some '@')
    (h : t.head? ≠ some '@') : keyword.isPrefixOf? t = none := by
  obtain _ | ⟨d, keyword⟩ := keyword
  · simp at hkeyword
  obtain rfl : d = '@' := by simpa using hkeyword
  cases t with
  | nil => rfl
  | cons c t =>
    have hne : ¬ ('@' == c) = true := by
      simpa using fun hc : '@' = c => h (by rw [hc]; rfl)
    exact if_neg hne

/-- A selector and what it declares. -/
structure RuleSet where
  selector : Text
  declarations : Dictionary := ∅
  deriving DecidableEq, Repr

/-- A rule of a style sheet. -/
inductive Rule
  /-- Declarations for the elements that a selector picks out. -/
  | ruleSet (rule : RuleSet)
  /-- An animation with its steps. -/
  | keyframes (identifier : Text) (steps : List RuleSet)
  /-- Rules that hold where the query does. -/
  | group (type : GroupType) (query : Text) (rules : List Rule)
  deriving Repr

mutual

/-- Whether two rules are equal. -/
def Rule.decEq : (a b : Rule) → Decidable (a = b)
  | .ruleSet r, .ruleSet r' => decidable_of_iff (r = r') (by simp)
  | .keyframes i s, .keyframes i' s' => decidable_of_iff (i = i' ∧ s = s') (by simp)
  | .group t q rs, .group t' q' rs' =>
    have := Rule.decEqList rs rs'
    decidable_of_iff (t = t' ∧ q = q' ∧ rs = rs') (by simp)
  | .ruleSet _, .keyframes _ _ | .ruleSet _, .group _ _ _ | .keyframes _ _, .ruleSet _
  | .keyframes _ _, .group _ _ _ | .group _ _ _, .ruleSet _ | .group _ _ _, .keyframes _ _ =>
    isFalse (by simp)

/-- Whether two lists of rules are equal. -/
def Rule.decEqList : (as bs : List Rule) → Decidable (as = bs)
  | [], [] => isTrue rfl
  | a :: as, b :: bs =>
    have := Rule.decEq a b
    have := Rule.decEqList as bs
    decidable_of_iff (a = b ∧ as = bs) (by simp)
  | [], _ :: _ | _ :: _, [] => isFalse (by simp)

end

instance : DecidableEq Rule :=
  Rule.decEq

/-- What a source says. -/
structure RuleTree where
  /-- The rules in the order in which they apply. -/
  rules : List Rule := []
  /-- The qualified name of each animation of the source. -/
  keyframes : Dictionary := ∅
  deriving DecidableEq, Repr

/-- The qualified name of an animation, by which it is known outside its scope. -/
def qualify (scope name : Text) : Text :=
  scope ++ '-' :: name

end ScopedStyles
