import ScopedStyles.Proofs.Grammar.Piece
import ScopedStyles.Source.Parse

/-!
# What a piece does to a draft

A draft stands at a level of the grammar, with levels around it. A semicolon changes neither, an
opening brace goes down to a block that the level holds, and a closing brace goes back up.

## Main statements

* `Draft.level`, `Draft.around` — where a draft stands.
* `Draft.openBlock_eq_ok_iff` — a block is opened if its head is one that the level holds.
* `Draft.level_closeBlock`, `Draft.around_closeBlock` — where a draft stands after a closing brace.
-/

namespace ScopedStyles.Draft

/-- The level at which a draft stands. -/
def level (d : Draft) : Level :=
  match d.place with
  | .body => .body
  | .ruleSet _ _ => .ruleSet
  | .keyframes _ _ none => .keyframes
  | .keyframes _ _ (some _) => .step

/-- The levels around the one at which a draft stands, the innermost first. -/
def around (d : Draft) : List Level :=
  match d.place with
  | .body => d.groups.map fun _ => .body
  | .ruleSet _ outer => outer.map (fun _ => .ruleSet) ++ .body :: d.groups.map fun _ => .body
  | .keyframes _ _ none => .body :: d.groups.map fun _ => .body
  | .keyframes _ _ (some _) => .keyframes :: .body :: d.groups.map fun _ => .body

variable {d d' : Draft} {scope text property value : Text}

theorem atTop_eq (d : Draft) : d.atTop = d.around.isEmpty := by
  obtain ⟨body, place, groups, keyframes⟩ := d
  rcases place with _ | _ | ⟨_, _, _ | _⟩ <;> cases groups <;> simp [atTop, around]

/-! ## Declarations -/

@[simp] theorem level_insert (d : Draft) (property value : Text) :
    (d.insert property value).level = d.level := by
  obtain ⟨body, place, groups, keyframes⟩ := d
  rcases place with _ | _ | ⟨_, _, _ | _⟩ <;> rfl

@[simp] theorem around_insert (d : Draft) (property value : Text) :
    (d.insert property value).around = d.around := by
  obtain ⟨body, place, groups, keyframes⟩ := d
  rcases place with _ | _ | ⟨_, _, _ | _⟩ <;> rfl

theorem declare_eq_ok_iff : d.declare text = .ok d' ↔
    ∃ property value, Declares text.trim property value ∧ d.insert property value = d' := by
  constructor
  · intro h
    unfold declare at h
    split at h
    · next property value hdeclaration =>
      exact ⟨property, value, declares_trim_iff.2 (Source.declaration?_eq_some_iff.1 hdeclaration),
        Except.ok.inj h⟩
    · cases h
  · rintro ⟨property, value, h, rfl⟩
    rw [declare, Source.declaration?_eq_some_iff.2 (declares_trim_iff.1 h)]

/-- In front of the end of a content stands nothing or a last declaration. -/
theorem declareLast_eq_ok_iff : d.declareLast text = .ok d' ↔
    text.trim = [] ∧ d = d' ∨
      ∃ property value, Declares text.trim property value ∧ d.insert property value = d' := by
  unfold declareLast
  split
  · next hblank =>
    constructor
    · exact fun h => .inl ⟨hblank, Except.ok.inj h⟩
    · rintro (⟨-, rfl⟩ | ⟨property, value, hdeclares, -⟩)
      · rfl
      · exact absurd (hblank ▸ hdeclares) (not_declares_nil property value)
  · next hne => simp [hne, declare_eq_ok_iff]

/-! ## Opening a block -/

/-- The draft once the block of a head has been opened. -/
def enter (scope : Text) (d : Draft) (head : Head) : Draft :=
  match head, d.place with
  | .keyframes name, _ =>
    { d with
      place := .keyframes name [] none
      keyframes := d.keyframes.insert name (qualify scope name) }
  | .group type query, _ => { d with body := {}, groups := ⟨type, query, d.body⟩ :: d.groups }
  | .selector part, .ruleSet current outer =>
    { d with place := .ruleSet ⟨Selector.attach current.selector part, ∅⟩ (current :: outer) }
  | .selector part, .keyframes name steps _ =>
    { d with place := .keyframes name steps (some ⟨part, ∅⟩) }
  | .selector part, .body =>
    { d with place := .ruleSet ⟨Selector.attach (Selector.ofScope scope) part, ∅⟩ [] }

/-- No at-rule may stand in a rule set or an animation. -/
theorem openBlock_of_atRule (hplace : d.place ≠ .body) (hat : text.head? = some '@') :
    d.openBlock scope text = .error (.unexpectedAtRule text) := by
  have hheader := Header.ofText_ne_selector hat
  have hne : text ≠ [] := by
    rintro rfl
    cases hat
  unfold openBlock
  rw [if_neg hne]
  split
  all_goals simp_all

/-- A block is opened exactly if it has a head and the level holds blocks with that head. -/
theorem openBlock_eq_ok_iff : d.openBlock scope text = .ok d' ↔
    ∃ head inside, Heads text head ∧ d.level.Holds head inside ∧ d.enter scope head = d' := by
  obtain ⟨body, place, groups, keyframes⟩ := d
  constructor
  · intro h
    have hne : text ≠ [] := by
      rintro rfl
      simp [openBlock] at h
    by_cases hunknown : Header.ofText text = .unknown
    · rcases place with _ | _ | ⟨_, _, _ | _⟩ <;> simp [openBlock, hne, hunknown] at h
    · obtain ⟨head, hhead⟩ := exists_heads hne hunknown
      refine ⟨head, ?_⟩
      simp only [openBlock, hne, hhead.ofText, if_false] at h
      rcases place with _ | _ | ⟨_, _, _ | _⟩ <;> cases head <;> cases h
      · exact ⟨_, hhead, .rule _, by simp [enter, hhead.eq_of_selector]⟩
      · exact ⟨_, hhead, .keyframes _, rfl⟩
      · exact ⟨_, hhead, .group _ _, rfl⟩
      · exact ⟨_, hhead, .nested _, by simp [enter, hhead.eq_of_selector]⟩
      · exact ⟨_, hhead, .step _, by simp [enter, hhead.eq_of_selector]⟩
  · rintro ⟨head, inside, hhead, hholds, rfl⟩
    rcases place with _ | _ | ⟨_, _, _ | _⟩ <;> cases hholds
    case body.rule | ruleSet.nested | keyframes.none.step =>
      obtain rfl := hhead.eq_of_selector
      simp [openBlock, hhead.ne_nil, hhead.ofText, Head.header, enter]
    all_goals simp [openBlock, hhead.ne_nil, hhead.ofText, Head.header, enter]

theorem level_enter {head : Head} {inside : Level} (h : d.level.Holds head inside) :
    (d.enter scope head).level = inside := by
  obtain ⟨body, place, groups, keyframes⟩ := d
  rcases place with _ | _ | ⟨_, _, _ | _⟩ <;> cases h <;> rfl

theorem around_enter {head : Head} {inside : Level} (h : d.level.Holds head inside) :
    (d.enter scope head).around = d.level :: d.around := by
  obtain ⟨body, place, groups, keyframes⟩ := d
  rcases place with _ | _ | ⟨_, _, _ | _⟩ <;> cases h <;> simp [enter, around, level]

/-! ## Closing a block -/

/-- A closing brace leads to the next level outwards. -/
theorem level_closeBlock {outer : Level} {levels : List Level} (h : d.around = outer :: levels) :
    (d.closeBlock scope).level = outer := by
  obtain ⟨body, place, groups, keyframes⟩ := d
  rcases place with _ | ⟨_, _ | _⟩ | ⟨_, _, _ | _⟩ <;> cases groups <;> cases h <;> rfl

theorem around_closeBlock {outer : Level} {levels : List Level} (h : d.around = outer :: levels) :
    (d.closeBlock scope).around = levels := by
  obtain ⟨body, place, groups, keyframes⟩ := d
  rcases place with _ | ⟨_, _ | _⟩ | ⟨_, _, _ | _⟩ <;> cases groups <;> cases h <;> rfl

end ScopedStyles.Draft
