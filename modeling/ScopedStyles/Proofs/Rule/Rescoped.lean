import ScopedStyles.Proofs.Grammar.Aligned
import ScopedStyles.Proofs.Rule.Reference

/-!
# A source under two scopes

The scope leads the selectors of rule sets and the identifiers of animations, and nothing else of a
rule tree depends on it. So the rule trees of a source under two scopes are the same behind these
leads, and a source that is faulty under one scope has the same error under the other.

## Main definitions

* `Text.SameBehind` — texts that differ in their leads only.
* `RuleSet.Rescoped`, `Rule.Rescoped`, `RuleTree.Rescoped` — what has been read under two scopes.

## Main statements

* `Content.rescoped_ruleSets`, `Content.rescoped_rules`, `Content.rescoped_tree` — one content says
  the same under two scopes.
* `parse_rescoped` — a source has one error under both scopes, or rule trees that are the same.
-/

namespace ScopedStyles

/-- Two texts start with their leads and are the same behind them. -/
def Text.SameBehind (lead lead' t t' : Text) : Prop :=
  ∃ rest, t = lead ++ rest ∧ t' = lead' ++ rest

/-- Two rule sets declare the same, and their selectors are the same behind the classes of their
scopes. -/
structure RuleSet.Rescoped (scope scope' : Text) (rule rule' : RuleSet) : Prop where
  selector : Text.SameBehind (Selector.ofScope scope) (Selector.ofScope scope')
    rule.selector rule'.selector
  declarations : rule.declarations = rule'.declarations

/-- Two rules are the same behind their scopes, and so are the rules in them. -/
inductive Rule.Rescoped (scope scope' : Text) : Rule → Rule → Prop
  | ruleSet {rule rule' : RuleSet} (h : rule.Rescoped scope scope' rule') :
      Rescoped scope scope' (.ruleSet rule) (.ruleSet rule')
  | keyframes {identifier identifier' : Text} {steps : List RuleSet}
      (h : Text.SameBehind (scope ++ ['-']) (scope' ++ ['-']) identifier identifier') :
      Rescoped scope scope' (.keyframes identifier steps) (.keyframes identifier' steps)
  | group {type : GroupType} {query : Text} {rules rules' : List Rule}
      (h : List.Forall₂ (Rescoped scope scope') rules rules') :
      Rescoped scope scope' (.group type query rules) (.group type query rules')

/-- Two rule trees are the same behind their scopes. Their tables have the same names in the same
order. -/
structure RuleTree.Rescoped (scope scope' : Text) (tree tree' : RuleTree) : Prop where
  rules : List.Forall₂ (Rule.Rescoped scope scope') tree.rules tree'.rules
  keyframes : List.Forall₂ (fun entry entry' => entry.1 = entry'.1 ∧
      Text.SameBehind (scope ++ ['-']) (scope' ++ ['-']) entry.2 entry'.2)
    tree.keyframes.entries tree'.keyframes.entries

variable (scope scope' : Text)

/-! ## Leads -/

theorem Text.sameBehind_qualify (name : Text) :
    Text.SameBehind (scope ++ ['-']) (scope' ++ ['-']) (qualify scope name)
      (qualify scope' name) :=
  ⟨name, by simp [qualify], by simp [qualify]⟩

theorem Selector.sameBehind_ofScope :
    Text.SameBehind (ofScope scope) (ofScope scope') (ofScope scope) (ofScope scope') :=
  ⟨[], by simp, by simp⟩

variable {scope scope'}

/-- A part is attached in the same way, whatever the selector around it. -/
theorem Text.SameBehind.attach {lead lead' outer outer' : Text}
    (h : Text.SameBehind lead lead' outer outer') (part : Text) :
    Text.SameBehind lead lead' (Selector.attach outer part) (Selector.attach outer' part) := by
  obtain ⟨rest, rfl, rfl⟩ := h
  unfold Selector.attach
  split
  · exact ⟨rest ++ part, by simp, by simp⟩
  · exact ⟨rest ++ ' ' :: part, by simp, by simp⟩

/-! ## Contents -/

theorem RuleSet.rescoped_kept {selector selector' : Text}
    (h : Text.SameBehind (Selector.ofScope scope) (Selector.ofScope scope') selector selector')
    (declarations : List (Text × Text)) :
    List.Forall₂ (RuleSet.Rescoped scope scope') (kept selector declarations)
      (kept selector' declarations) := by
  unfold kept
  split
  · exact .nil
  · exact .cons ⟨h, rfl⟩ .nil

theorem Rule.rescoped_map_ruleSet {rules rules' : List RuleSet}
    (h : List.Forall₂ (RuleSet.Rescoped scope scope') rules rules') :
    List.Forall₂ (Rule.Rescoped scope scope') (rules.map .ruleSet) (rules'.map .ruleSet) :=
  List.forall₂_map_left_iff.2 (List.forall₂_map_right_iff.2 (h.imp fun _ _ h => .ruleSet h))

namespace Content

theorem rescoped_ruleSets (c : Content) {outer outer' : Text}
    (h : Text.SameBehind (Selector.ofScope scope) (Selector.ofScope scope') outer outer') :
    List.Forall₂ (RuleSet.Rescoped scope scope') (c.ruleSets outer) (c.ruleSets outer') := by
  induction c generalizing outer outer' with
  | nil => exact .nil
  | declaration property value rest ih => exact ih h
  | block head inner rest ihinner ihrest =>
    cases head with
    | selector part =>
      have hpart := h.attach part
      refine List.rel_append (ihinner hpart) (List.rel_append ?_ (ihrest h))
      exact RuleSet.rescoped_kept hpart inner.declarations
    | keyframes _ | group _ _ => exact ihrest h

theorem rescoped_own (c : Content) :
    List.Forall₂ (Rule.Rescoped scope scope') (c.own scope) (c.own scope') :=
  Rule.rescoped_map_ruleSet
    (RuleSet.rescoped_kept (Selector.sameBehind_ofScope scope scope') c.declarations)

theorem rescoped_rules (c : Content) :
    List.Forall₂ (Rule.Rescoped scope scope') (c.rules scope) (c.rules scope') := by
  induction c with
  | nil => exact .nil
  | declaration property value rest ih => exact ih
  | block head inner rest ihinner ihrest =>
    cases head with
    | selector part =>
      refine List.rel_append (Rule.rescoped_map_ruleSet ?_) ihrest
      exact rescoped_ruleSets _ (Selector.sameBehind_ofScope scope scope')
    | keyframes name => exact .cons (.keyframes (Text.sameBehind_qualify ..)) ihrest
    | group type query => exact .cons (.group (List.rel_append inner.rescoped_own ihinner)) ihrest

/-- A content says the same under two scopes. -/
theorem rescoped_tree (c : Content) : (c.tree scope).Rescoped scope scope' (c.tree scope') where
  rules := List.rel_append c.rescoped_rules c.rescoped_own
  keyframes := by
    rw [keyframes_tree, keyframes_tree]
    refine List.forall₂_map_left_iff.2 (List.forall₂_map_right_iff.2 (List.forall₂_same.2 ?_))
    exact fun name _ => ⟨rfl, Text.sameBehind_qualify ..⟩

end Content

/-! ## Sources -/

theorem parse_eq_error {source : Text} {e : ParseError} (h : parse scope source = .error e) :
    parse scope' source = .error e := by
  rw [parse_eq_error_iff] at h ⊢
  exact ⟨Source.tree_eq_error h.1, h.2⟩

/-- The scope has no say in how a source is read. Under any two scopes it has one error, of the same
cause and at the same place, or two rule trees that are the same but for the scopes with which
their selectors and identifiers start. -/
theorem parse_rescoped (scope scope' source : Text) :
    (∃ e, parse scope source = .error e ∧ parse scope' source = .error e) ∨
    ∃ tree tree', parse scope source = .ok tree ∧ parse scope' source = .ok tree' ∧
      tree.Rescoped scope scope' tree' := by
  cases h : parse scope source with
  | error e => exact .inl ⟨e, rfl, parse_eq_error h⟩
  | ok tree =>
    obtain ⟨c, hc⟩ := exists_says_of_parse h
    obtain rfl := Except.ok.inj (h.symm.trans hc.parse_eq)
    exact .inr ⟨_, _, rfl, hc.parse_eq, c.rescoped_tree⟩

end ScopedStyles
