import ScopedStyles.FlatRule.Reader
import ScopedStyles.Proofs.FlatRule.Grammar

/-!
# Flat rules as sequences of parts

A flat rule is determined by its parts and the delimiters after them, and taking them one after the
other builds it. What a draft has taken can be told from the draft, so no other parts build the
same rule.

## Main definitions

* `Segment` — a part and the delimiter after it.
* `FlatRule.segments` — the segments of a rule.
* `FlatDraft.segments` — the segments that a draft has taken.
* `FlatDraft.Alike` — drafts that differ in their texts only.

## Main statements

* `FlatDraft.takeAll?_segments` — the segments of a rule complete it.
* `FlatDraft.segments_of_takeAll?` — no other segments do.
* `FlatDraft.Alike.take` — which parts may come next does not depend on texts.
-/

namespace ScopedStyles

/-- A part with the delimiter after it. -/
structure Segment where
  part : Part
  delimiter : Delimiter
  deriving DecidableEq, Repr

/-! ## The segments of a rule -/

/-- The segments of a style rule up to the end of its block. -/
def StyleRule.opening (rule : StyleRule) : List Segment :=
  ⟨.style rule.selector, .openBrace⟩ ::
    rule.declarations.map fun declaration => ⟨.declared declaration.1 declaration.2, .semicolon⟩

/-- The segments of a style rule. -/
def StyleRule.segments (rule : StyleRule) : List Segment :=
  rule.opening ++ [⟨.blank, .closeBrace⟩]

mutual

/-- The segments of a flat rule. -/
def FlatRule.segments : FlatRule → List Segment
  | .style rule => rule.segments
  | .keyframes name steps =>
    ⟨.keyframes name, .openBrace⟩ ::
      (steps.flatMap StyleRule.segments ++ [⟨.blank, .closeBrace⟩])
  | .group type query rules =>
    ⟨.group type query, .openBrace⟩ :: (FlatRule.bodySegments rules ++ [⟨.blank, .closeBrace⟩])

/-- The segments of some flat rules, one after the other. -/
def FlatRule.bodySegments : List FlatRule → List Segment
  | [] => []
  | rule :: rules => rule.segments ++ FlatRule.bodySegments rules

end

@[simp] theorem StyleRule.opening_concat (selector : Text) (declarations : List (Text × Text))
    (property value : Text) :
    opening ⟨selector, declarations ++ [(property, value)]⟩ =
      opening ⟨selector, declarations⟩ ++ [⟨.declared property value, .semicolon⟩] := by
  simp [opening]

@[simp] theorem FlatRule.bodySegments_concat (rules : List FlatRule) (rule : FlatRule) :
    FlatRule.bodySegments (rules ++ [rule]) = FlatRule.bodySegments rules ++ rule.segments := by
  induction rules with
  | nil => simp [FlatRule.bodySegments]
  | cons first rules ih => simp [FlatRule.bodySegments, ih]

/-! ## The segments of a draft -/

/-- The segments of a group whose block is open. -/
def OpenFlatGroup.segments (group : OpenFlatGroup) : List Segment :=
  ⟨.group group.type group.query, .openBrace⟩ :: FlatRule.bodySegments group.rules

/-- The segments that were taken since the innermost group was opened and its last rule was
complete. -/
def Expected.segments : Expected → List Segment
  | .rule => []
  | .step name steps => ⟨.keyframes name, .openBrace⟩ :: steps.flatMap StyleRule.segments
  | .declaration style none => style.opening
  | .declaration style (some (name, steps)) =>
    ⟨.keyframes name, .openBrace⟩ :: (steps.flatMap StyleRule.segments ++ style.opening)
  | .nothing flat => flat.segments

namespace FlatDraft

/-- The segments that a draft has taken. -/
def segments (d : FlatDraft) : List Segment :=
  d.groups.reverse.flatMap OpenFlatGroup.segments ++ d.expected.segments

/-- The draft after some segments, if they may come next. -/
def takeAll? (d : FlatDraft) (segments : List Segment) : Option FlatDraft :=
  segments.foldlM (fun d segment => d.take segment.part segment.delimiter) d

@[simp] theorem takeAll?_nil (d : FlatDraft) : d.takeAll? [] = some d := rfl

@[simp] theorem takeAll?_cons (d : FlatDraft) (segment : Segment) (segments : List Segment) :
    d.takeAll? (segment :: segments) =
      (d.take segment.part segment.delimiter).bind (·.takeAll? segments) := rfl

@[simp] theorem takeAll?_append (d : FlatDraft) (a b : List Segment) :
    d.takeAll? (a ++ b) = (d.takeAll? a).bind (·.takeAll? b) :=
  List.foldlM_append

/-! ## The segments of a rule complete it -/

section

variable {groups : List OpenFlatGroup}

theorem takeAll?_declarations (rule : StyleRule) (animation : Option (Text × List StyleRule))
    (declarations : List (Text × Text)) :
    takeAll? ⟨.declaration rule animation, groups⟩
        (declarations.map fun declaration => ⟨.declared declaration.1 declaration.2, .semicolon⟩) =
      some ⟨.declaration { rule with declarations := rule.declarations ++ declarations } animation,
        groups⟩ := by
  induction declarations generalizing rule with
  | nil => simp
  | cons declaration declarations ih => simp [take, ih]

theorem takeAll?_style (rule : StyleRule) :
    takeAll? ⟨.rule, groups⟩ rule.segments = some (complete (.style rule) groups) := by
  simp [StyleRule.segments, StyleRule.opening, take, takeAll?_declarations]

theorem takeAll?_steps (name : Text) (done steps : List StyleRule) :
    takeAll? ⟨.step name done, groups⟩ (steps.flatMap StyleRule.segments) =
      some ⟨.step name (done ++ steps), groups⟩ := by
  induction steps generalizing done with
  | nil => simp
  | cons step steps ih =>
    simp [StyleRule.segments, StyleRule.opening, take, takeAll?_declarations, ih]

mutual

/-- The segments of a rule complete it, in whatever groups. -/
theorem takeAll?_segments (groups : List OpenFlatGroup) :
    (flat : FlatRule) → takeAll? ⟨.rule, groups⟩ flat.segments = some (complete flat groups)
  | .style rule => takeAll?_style rule
  | .keyframes name steps => by
    simp [FlatRule.segments, take, takeAll?_steps]
  | .group type query rules => by
    simp [FlatRule.segments, take, takeAll?_bodySegments groups ⟨type, query, []⟩ rules]

/-- The segments of some rules complete them in the group around them. -/
theorem takeAll?_bodySegments (groups : List OpenFlatGroup) (group : OpenFlatGroup) :
    (rules : List FlatRule) →
      takeAll? ⟨.rule, group :: groups⟩ (FlatRule.bodySegments rules) =
        some ⟨.rule, { group with rules := group.rules ++ rules } :: groups⟩
  | [] => by simp [FlatRule.bodySegments]
  | rule :: rules => by
    simp [FlatRule.bodySegments, takeAll?_segments (group :: groups) rule, complete,
      takeAll?_bodySegments groups _ rules]

end

end

/-! ## No other segments do -/

section

variable {groups : List OpenFlatGroup} {d d' : FlatDraft} {segment : Segment} {flat : FlatRule}

/-- What a draft may take, and what becomes of it. -/
inductive Takes : FlatDraft → Segment → FlatDraft → Prop
  | openStyle {groups : List OpenFlatGroup} (selector : Text) :
    Takes ⟨.rule, groups⟩ ⟨.style selector, .openBrace⟩ ⟨.declaration ⟨selector, []⟩ none, groups⟩
  | openKeyframes {groups : List OpenFlatGroup} (name : Text) :
    Takes ⟨.rule, groups⟩ ⟨.keyframes name, .openBrace⟩ ⟨.step name [], groups⟩
  | openGroup {groups : List OpenFlatGroup} (type : GroupType) (query : Text) :
    Takes ⟨.rule, groups⟩ ⟨.group type query, .openBrace⟩ ⟨.rule, ⟨type, query, []⟩ :: groups⟩
  | openStep {groups : List OpenFlatGroup} (name : Text) (steps : List StyleRule)
      (selector : Text) :
    Takes ⟨.step name steps, groups⟩ ⟨.style selector, .openBrace⟩
      ⟨.declaration ⟨selector, []⟩ (some (name, steps)), groups⟩
  | declare {groups : List OpenFlatGroup} (rule : StyleRule)
      (animation : Option (Text × List StyleRule)) (property value : Text) :
    Takes ⟨.declaration rule animation, groups⟩ ⟨.declared property value, .semicolon⟩
      ⟨.declaration ⟨rule.selector, rule.declarations ++ [(property, value)]⟩ animation, groups⟩
  | closeStyle {groups : List OpenFlatGroup} (rule : StyleRule) :
    Takes ⟨.declaration rule none, groups⟩ ⟨.blank, .closeBrace⟩ (complete (.style rule) groups)
  | closeStep {groups : List OpenFlatGroup} (rule : StyleRule) (name : Text)
      (steps : List StyleRule) :
    Takes ⟨.declaration rule (some (name, steps)), groups⟩ ⟨.blank, .closeBrace⟩
      ⟨.step name (steps ++ [rule]), groups⟩
  | closeKeyframes {groups : List OpenFlatGroup} (name : Text) (steps : List StyleRule) :
    Takes ⟨.step name steps, groups⟩ ⟨.blank, .closeBrace⟩ (complete (.keyframes name steps) groups)
  | closeGroup (group : OpenFlatGroup) (outer : List OpenFlatGroup) :
    Takes ⟨.rule, group :: outer⟩ ⟨.blank, .closeBrace⟩
      (complete (.group group.type group.query group.rules) outer)

theorem take_eq_some_iff {part : Part} {delimiter : Delimiter} :
    d.take part delimiter = some d' ↔ Takes d ⟨part, delimiter⟩ d' := by
  constructor
  · obtain ⟨expected, groups⟩ := d
    intro h
    unfold take at h
    split at h
    all_goals try split at h
    all_goals cases h
    all_goals simp_all only
    all_goals constructor
  · rintro ⟨⟩
    all_goals rfl

theorem segments_complete (rule : FlatRule) (groups : List OpenFlatGroup) :
    (complete rule groups).segments =
      groups.reverse.flatMap OpenFlatGroup.segments ++ rule.segments := by
  cases groups with
  | nil => simp [complete, segments, Expected.segments]
  | cons group groups => simp [complete, segments, Expected.segments, OpenFlatGroup.segments]

/-- Nothing that a draft has taken is forgotten. -/
theorem Takes.segments_eq (h : Takes d segment d') : d'.segments = d.segments ++ [segment] := by
  cases h with
  | openStyle | openKeyframes | openStep =>
    simp [segments, Expected.segments, StyleRule.opening]
  | openGroup =>
    simp [segments, Expected.segments, OpenFlatGroup.segments, FlatRule.bodySegments]
  | declare rule animation property value =>
    cases animation with
    | none => simp [segments, Expected.segments]
    | some animation => simp [segments, Expected.segments]
  | closeStyle rule =>
    rw [segments_complete]
    simp [segments, Expected.segments, FlatRule.segments, StyleRule.segments]
  | closeStep =>
    simp [segments, Expected.segments, StyleRule.segments]
  | closeKeyframes name steps =>
    rw [segments_complete]
    simp [segments, Expected.segments, FlatRule.segments]
  | closeGroup group outer =>
    rw [segments_complete]
    simp [segments, Expected.segments, FlatRule.segments, OpenFlatGroup.segments]

theorem segments_of_takeAll? {taken : List Segment} (h : d.takeAll? taken = some d') :
    d'.segments = d.segments ++ taken := by
  induction taken generalizing d with
  | nil =>
    obtain rfl : d = d' := by simpa using h
    simp
  | cons segment taken ih =>
    obtain ⟨next, htake, hnext⟩ := Option.bind_eq_some_iff.1 h
    rw [ih hnext, (take_eq_some_iff.1 htake).segments_eq]
    simp

/-- Whether a rule that is complete stands in no group. -/
def Closed (d : FlatDraft) : Prop :=
  ∀ flat, d.expected = .nothing flat → d.groups = []

theorem closed_complete (rule : FlatRule) (groups : List OpenFlatGroup) :
    (complete rule groups).Closed := by
  cases groups with
  | nil => exact fun _ _ => rfl
  | cons group groups =>
    intro flat h
    cases h

theorem Takes.closed (h : Takes d segment d') : d'.Closed := by
  cases h with
  | openStyle | openKeyframes | openGroup | openStep | declare | closeStep =>
    intro flat hflat
    cases hflat
  | closeStyle | closeKeyframes | closeGroup => exact closed_complete _ _

theorem closed_of_takeAll? {taken : List Segment} (h : d.takeAll? taken = some d')
    (hd : d.Closed) : d'.Closed := by
  induction taken generalizing d with
  | nil =>
    obtain rfl : d = d' := by simpa using h
    exact hd
  | cons segment taken ih =>
    obtain ⟨next, htake, hnext⟩ := Option.bind_eq_some_iff.1 h
    exact ih hnext (take_eq_some_iff.1 htake).closed

/-- The segments that complete a rule are those of the rule. -/
theorem takeAll?_start_iff {taken : List Segment} :
    (∃ d, takeAll? {} taken = some d ∧ d.expected = .nothing flat) ↔ taken = flat.segments := by
  constructor
  · rintro ⟨⟨expected, groups⟩, htaken, rfl⟩
    obtain rfl : groups = [] := closed_of_takeAll? htaken (fun _ h => by cases h) flat rfl
    have hsegments := segments_of_takeAll? htaken
    simpa [segments, Expected.segments] using hsegments.symm
  · rintro rfl
    exact ⟨complete flat [], takeAll?_segments [] flat, rfl⟩

end

/-! ## Texts make no difference -/

end FlatDraft

/-- Parts that differ in their texts only. -/
inductive Part.Alike : Part → Part → Prop
  | blank : Alike .blank .blank
  | style (selector selector' : Text) : Alike (.style selector) (.style selector')
  | keyframes (name name' : Text) : Alike (.keyframes name) (.keyframes name')
  | group (type type' : GroupType) (query query' : Text) :
    Alike (.group type query) (.group type' query')
  | declared (property property' value value' : Text) :
    Alike (.declared property value) (.declared property' value')

/-- Expectations that differ in what has been read only. -/
inductive Expected.Alike : Expected → Expected → Prop
  | rule : Alike .rule .rule
  | step (name name' : Text) (steps steps' : List StyleRule) :
    Alike (.step name steps) (.step name' steps')
  | style (rule rule' : StyleRule) : Alike (.declaration rule none) (.declaration rule' none)
  | animated (rule rule' : StyleRule) (animation animation' : Text × List StyleRule) :
    Alike (.declaration rule (some animation)) (.declaration rule' (some animation'))
  | nothing (flat flat' : FlatRule) : Alike (.nothing flat) (.nothing flat')

namespace FlatDraft

/-- Drafts that differ in their texts only. -/
structure Alike (d e : FlatDraft) : Prop where
  expected : d.expected.Alike e.expected
  depth : d.groups.length = e.groups.length

theorem Alike.complete {rule rule' : FlatRule} {groups groups' : List OpenFlatGroup}
    (h : groups.length = groups'.length) :
    (complete rule groups).Alike (FlatDraft.complete rule' groups') := by
  cases groups with
  | nil =>
    obtain rfl := List.length_eq_zero_iff.1 h.symm
    exact ⟨.nothing _ _, rfl⟩
  | cons group groups =>
    obtain ⟨group', groups', rfl⟩ := List.exists_cons_of_length_eq_add_one h.symm
    exact ⟨.rule, h⟩

/-- Whether a part may come next depends on no text. -/
theorem Alike.take {d d' e : FlatDraft} {part part' : Part} {delimiter : Delimiter}
    (h : d.Alike e) (hpart : part.Alike part') (htake : d.take part delimiter = some d') :
    ∃ e', e.take part' delimiter = some e' ∧ d'.Alike e' := by
  obtain ⟨expected, groups⟩ := e
  obtain ⟨hexpected, hdepth⟩ := h
  cases take_eq_some_iff.1 htake with
  | openStyle =>
    cases hexpected
    cases hpart
    exact ⟨_, rfl, .style _ _, hdepth⟩
  | openKeyframes =>
    cases hexpected
    cases hpart
    exact ⟨_, rfl, .step _ _ _ _, hdepth⟩
  | openGroup =>
    cases hexpected
    cases hpart
    exact ⟨_, rfl, .rule, congrArg (· + 1) hdepth⟩
  | openStep =>
    cases hexpected
    cases hpart
    exact ⟨_, rfl, .animated _ _ _ _, hdepth⟩
  | declare =>
    cases hpart
    cases hexpected with
    | style => exact ⟨_, rfl, .style _ _, hdepth⟩
    | animated => exact ⟨_, rfl, .animated _ _ _ _, hdepth⟩
  | closeStyle =>
    cases hexpected
    cases hpart
    exact ⟨_, rfl, .complete hdepth⟩
  | closeStep =>
    cases hexpected
    cases hpart
    exact ⟨_, rfl, .step _ _ _ _, hdepth⟩
  | closeKeyframes =>
    cases hexpected
    cases hpart
    exact ⟨_, rfl, .complete hdepth⟩
  | closeGroup =>
    cases hexpected
    cases hpart
    obtain ⟨group, outer, rfl⟩ := List.exists_cons_of_length_eq_add_one hdepth.symm
    exact ⟨_, rfl, .complete (Nat.succ.inj hdepth)⟩

end FlatDraft

end ScopedStyles
