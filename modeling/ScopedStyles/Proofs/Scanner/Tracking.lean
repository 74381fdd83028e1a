import ScopedStyles.Proofs.Grammar.Step
import ScopedStyles.Proofs.Scanner.Balanced

/-!
# Stacks and drafts

A draft of a rule tree holds what the stacks of a scanner hold, but so that nothing in it can fail
to belong together. The frames of the stacks are the declarations of the open rule sets or of the
open step, then those of the innermost body, then those of the bodies around it.

## Main definitions

* `Nested` — a path and some frames as open rule sets.
* `Enclosed` — frames and group records as open groups.
* `Stacks.Tracks` — stacks that hold what a draft holds.
* `Agrees` — results that correspond.

## Main statements

* `Stacks.Tracks.read` — stacks that track a draft and are balanced go on to track it at every
  delimiter, or both find the same fault.
* `Stacks.Tracks.finish` — both come to the same rule tree, or find the same fault.
-/

namespace ScopedStyles

/-- The open rule sets of a path of selectors, the innermost first, with the frames in which their
declarations are gathered. -/
inductive Nested (scope : Text) : List Text → List Dictionary → List RuleSet → Prop
  | nil : Nested scope [Selector.ofScope scope] [] []
  | cons {path : List Text} {frames : List Dictionary} {outer : List RuleSet} (current : RuleSet)
      (selector : Text) (hselector : Selector.join? (path ++ [selector]) = some current.selector)
      (h : Nested scope path frames outer) :
      Nested scope (path ++ [selector]) (current.declarations :: frames) (current :: outer)

theorem Nested.declare {scope : Text} {path : List Text} {frames : List Dictionary}
    {current : RuleSet} {outer : List RuleSet} (h : Nested scope path frames (current :: outer))
    (property value : Text) :
    ∃ rest, frames = current.declarations :: rest ∧
      Nested scope path (current.declarations.insert property value :: rest)
        (current.declare property value :: outer) := by
  cases h with
  | cons _ selector hselector h =>
    exact ⟨_, rfl, .cons (current.declare property value) selector hselector h⟩

theorem Nested.join?_eq {scope : Text} {path : List Text} {frames : List Dictionary}
    {current : RuleSet} {outer : List RuleSet} (h : Nested scope path frames (current :: outer)) :
    Selector.join? path = some current.selector := by
  cases h with
  | cons _ _ hselector _ => exact hselector

/-- The rules of the innermost of some groups, or else those of the source. -/
def GroupRecord.innermostRules (rules : List Rule) : List GroupRecord → List Rule
  | [] => rules
  | group :: _ => group.rules

theorem innermostRules_setPath (s : Stacks) (path : List Text) :
    GroupRecord.innermostRules (s.setPath path).rules (s.setPath path).groups =
      GroupRecord.innermostRules s.rules s.groups := by
  unfold Stacks.setPath
  cases s.groups <;> rfl

/-- The open groups of some records. Each stands in a body, whose declarations are gathered in a
frame. -/
inductive Enclosed (rules : List Rule) : List Dictionary → List GroupRecord → List OpenGroup → Prop
  | nil : Enclosed rules [] [] []
  | cons {frames : List Dictionary} {groups : List GroupRecord} {outer : List OpenGroup}
      (declarations : Dictionary) (group : GroupRecord) (h : Enclosed rules frames groups outer) :
      Enclosed rules (declarations :: frames) (group :: groups)
        (⟨group.type, group.query, declarations, GroupRecord.innermostRules rules groups⟩ :: outer)

/-- What else the innermost record holds plays no part, nor do the rules of the source if there is
a group. -/
theorem Enclosed.modifyHead {rules rules' : List Rule} {frames : List Dictionary}
    {groups : List GroupRecord} {outer : List OpenGroup} (h : Enclosed rules frames groups outer)
    (hrules : groups ≠ [] → rules' = rules) {f : GroupRecord → GroupRecord}
    (hf : ∀ group, (f group).type = group.type ∧ (f group).query = group.query) :
    Enclosed rules' frames (groups.modifyHead f) outer := by
  cases h with
  | nil => exact .nil
  | cons declarations group h =>
    obtain rfl := hrules (by simp)
    rw [List.modifyHead_cons, ← (hf group).1, ← (hf group).2]
    exact .cons declarations (f group) h

theorem Nested.path_ne_nil {scope : Text} {path : List Text} {frames : List Dictionary}
    {rules : List RuleSet} (h : Nested scope path frames rules) : path ≠ [] := by
  cases h <;> simp

/-- Where the reading stands in some open rule sets. -/
def Place.ofRuleSets : List RuleSet → Place
  | [] => .body
  | current :: outer => .ruleSet current outer

namespace Stacks

/-- Where the reading stands, and the frames that have been opened since the innermost body. -/
inductive Stands (scope : Text) (s : Stacks) : List Dictionary → Place → Prop
  | body (hruleSet : s.mode ≠ .ruleSet) (hkeyframes : s.mode ≠ .keyframes) : Stands scope s [] .body
  | ruleSet {frames : List Dictionary} {current : RuleSet} {outer : List RuleSet}
      (hmode : s.mode = .ruleSet) (h : Nested scope s.activePath frames (current :: outer)) :
      Stands scope s frames (.ruleSet current outer)
  | keyframes {name : Text} {steps : List RuleSet} (hmode : s.mode = .keyframes)
      (hname : s.name = name) (hsteps : s.steps = steps) (hstep : s.step = none)
      (hidentifier : s.identifiers.get? name = some (qualify scope name)) :
      Stands scope s [] (.keyframes name steps none)
  | step {name : Text} {steps : List RuleSet} (step : RuleSet) (hmode : s.mode = .keyframes)
      (hname : s.name = name) (hsteps : s.steps = steps) (hstep : s.step = some step.selector)
      (hidentifier : s.identifiers.get? name = some (qualify scope name)) :
      Stands scope s [step.declarations] (.keyframes name steps (some step))

theorem Stands.place_eq_body_iff {scope : Text} {s : Stacks} {inner : List Dictionary}
    {place : Place} (h : Stands scope s inner place) :
    place = .body ↔ s.mode = .root ∨ s.mode = .group := by
  cases h with
  | body hruleSet hkeyframes => simp [Mode.eq_root_or_eq_group hruleSet hkeyframes]
  | ruleSet hmode | keyframes hmode | step _ hmode => simp [hmode]

/-- The stacks hold what a draft holds, where `inner` are the frames since the innermost body and
`outer` those around it. -/
structure TracksWith (scope : Text) (s : Stacks) (d : Draft) (inner outer : List Dictionary) :
    Prop where
  frames : s.frames = inner ++ d.body.declarations :: outer
  rules : GroupRecord.innermostRules s.rules s.groups = d.body.rules
  groups : Enclosed s.rules outer s.groups d.groups
  place : Stands scope s inner d.place
  identifiers : s.identifiers = d.keyframes

/-- The stacks hold what a draft holds. -/
def Tracks (scope : Text) (s : Stacks) (d : Draft) : Prop :=
  ∃ inner outer, s.TracksWith scope d inner outer

end Stacks

/-- Results that correspond: stacks that track a draft, or the same fault. -/
inductive Agrees (scope : Text) : Except Stop Stacks → Except Fault Draft → Prop
  | ok {s : Stacks} {d : Draft} (h : s.Tracks scope d) : Agrees scope (.ok s) (.ok d)
  | fault (fault : Fault) : Agrees scope (.error (.fault fault)) (.error fault)

namespace Stacks

variable {scope : Text} {s : Stacks} {d : Draft}

theorem tracks_start (scope : Text) : (start scope).Tracks scope {} :=
  ⟨[], [], rfl, rfl, .nil, .body (by simp [start]) (by simp [start]), rfl⟩

namespace Tracks

theorem declare (h : s.Tracks scope d) (text : Text) :
    Agrees scope (s.declare text) (d.declare text) := by
  obtain ⟨body, place, groups, keyframes⟩ := d
  obtain ⟨inner, outer, hframes, hrules, hgroups, hplace, hidentifiers⟩ := h
  unfold Stacks.declare Draft.declare
  cases Source.declaration? text with
  | none => exact .fault _
  | some pair =>
    obtain ⟨property, value⟩ := pair
    dsimp only at *
    cases hplace with
    | body hruleSet hkeyframes =>
      rw [hframes]
      exact .ok ⟨[], outer, rfl, hrules, hgroups, .body hruleSet hkeyframes, hidentifiers⟩
    | ruleSet hmode hnested =>
      obtain ⟨rest, rfl, hdeclare⟩ := hnested.declare property value
      rw [hframes]
      exact .ok ⟨_ :: rest, outer, rfl, hrules, hgroups, .ruleSet hmode hdeclare, hidentifiers⟩
    | keyframes hmode hname hsteps hstep hidentifier =>
      rw [hframes]
      exact .ok ⟨[], outer, rfl, hrules, hgroups,
        .keyframes hmode hname hsteps hstep hidentifier, hidentifiers⟩
    | step step hmode hname hsteps hstep hidentifier =>
      rw [hframes]
      exact .ok ⟨[_], outer, rfl, hrules, hgroups,
        .step (step.declare property value) hmode hname hsteps hstep hidentifier, hidentifiers⟩

theorem declareLast (h : s.Tracks scope d) (text : Text) :
    Agrees scope (s.declareLast text) (d.declareLast text) := by
  unfold Stacks.declareLast Draft.declareLast
  split
  · exact .ok h
  · exact h.declare text.trim

/-! ## Opening a block -/

theorem openRuleSet {inner outer : List Dictionary} (h : s.TracksWith scope d inner outer)
    {rules : List RuleSet} (hnested : Nested scope s.activePath inner rules) {selector : Text}
    (hselector : Selector.join? s.activePath = some selector) (header : Text) :
    (s.openRuleSet header).Tracks scope
      { d with place := .ruleSet ⟨Selector.attach selector header, ∅⟩ rules } := by
  refine ⟨∅ :: inner, outer, congrArg _ h.frames, ?_, ?_, .ruleSet rfl ?_, h.identifiers⟩
  · exact (innermostRules_setPath s _).trans h.rules
  · exact h.groups.modifyHead (fun _ => rfl) fun _ => ⟨rfl, rfl⟩
  · have hpath : (s.openRuleSet header).activePath = s.activePath ++ [header] :=
      activePath_setPath s _
    rw [hpath]
    exact .cons ⟨Selector.attach selector header, ∅⟩ header
      (Selector.join?_concat hselector header) hnested

/-- A block that opens in no rule set and no animation. -/
theorem openOutside {body : Body} {groups : List OpenGroup} {keyframes : Dictionary}
    {outer : List Dictionary} (h : s.TracksWith scope ⟨body, .body, groups, keyframes⟩ [] outer)
    (hb : s.Balanced scope) (hruleSet : s.mode ≠ .ruleSet) (hkeyframes : s.mode ≠ .keyframes)
    {header : Text} (hheader : header ≠ []) :
    Agrees scope (s.openOutside scope header)
      ((Draft.mk body .body groups keyframes).openBlock scope header) := by
  obtain ⟨hframes, hrules, hgroups, -, hidentifiers⟩ := id h
  unfold Stacks.openOutside Draft.openBlock
  rw [if_neg hheader]
  cases Header.ofText header with
  | keyframes name =>
    refine .ok ⟨[], outer, hframes, hrules, hgroups, .keyframes rfl rfl ?_ ?_ ?_, ?_⟩
    · exact hb.steps_eq_nil hkeyframes
    · exact hb.step_eq_none hkeyframes
    · exact (s.identifiers.get?_insert name (qualify scope name) name).trans (if_pos rfl)
    · exact congrArg (·.insert name (qualify scope name)) hidentifiers
  | group type query =>
    refine .ok ⟨[], body.declarations :: outer, congrArg _ hframes, rfl, ?_,
      .body (by simp) (by simp), hidentifiers⟩
    have hcons := Enclosed.cons body.declarations ⟨type, query, [Selector.ofScope scope], []⟩
      hgroups
    rwa [hrules] at hcons
  | unknown => exact .fault _
  | selector =>
    have hpath := hb.activePath_eq hruleSet
    refine .ok (openRuleSet h ?_ ?_ header)
    · rw [hpath]
      exact .nil
    · rw [hpath]
      rfl

theorem openBlock (h : s.Tracks scope d) (hb : s.Balanced scope) (header : Text) :
    Agrees scope (s.openBlock scope header) (d.openBlock scope header) := by
  obtain ⟨body, place, groups, keyframes⟩ := d
  obtain ⟨inner, outer, hframes, hrules, hgroups, hplace, hidentifiers⟩ := h
  unfold Stacks.openBlock
  by_cases hempty : header = []
  · rw [if_pos hempty, Draft.openBlock, if_pos hempty, hempty]
    exact .fault _
  rw [if_neg hempty]
  by_cases houtside : s.mode = .root ∨ s.mode = .group
  · obtain rfl : place = .body := hplace.place_eq_body_iff.2 houtside
    cases hplace with
    | body hruleSet hkeyframes =>
      rw [if_pos houtside]
      exact openOutside ⟨hframes, hrules, hgroups, .body hruleSet hkeyframes, hidentifiers⟩ hb
        hruleSet hkeyframes hempty
  rw [if_neg houtside]
  by_cases hat : header.head? = some '@'
  · rw [if_pos hat, Draft.openBlock_of_atRule (mt hplace.place_eq_body_iff.1 houtside) hat]
    exact .fault _
  rw [if_neg hat, Draft.openBlock, if_neg hempty, Header.ofText_selector hat]
  dsimp only at *
  cases hplace with
  | body hruleSet hkeyframes =>
    exact absurd (Mode.eq_root_or_eq_group hruleSet hkeyframes) houtside
  | @ruleSet _ current outerSets hmode hnested =>
    have htracks : s.TracksWith scope ⟨body, .ruleSet current outerSets, groups, keyframes⟩ inner
        outer := ⟨hframes, hrules, hgroups, .ruleSet hmode hnested, hidentifiers⟩
    rw [if_pos hmode]
    exact .ok (openRuleSet htracks hnested hnested.join?_eq header)
  | keyframes hmode hname hsteps hstep hidentifier =>
    rw [if_neg (by simp [hmode]), hstep]
    exact .ok ⟨[∅], outer, congrArg _ hframes, hrules, hgroups,
      .step ⟨header, ∅⟩ hmode hname hsteps rfl hidentifier, hidentifiers⟩
  | step step hmode hname hsteps hstep hidentifier =>
    rw [if_neg (by simp [hmode]), hstep]
    exact .fault _

/-! ## Closing a block -/

theorem stands_addRule {inner : List Dictionary} {place : Place} (h : Stands scope s inner place)
    (rule : Rule) : Stands scope (s.addRule rule) inner place := by
  cases h with
  | body hruleSet hkeyframes => exact .body hruleSet hkeyframes
  | ruleSet hmode hnested =>
    refine .ruleSet hmode ?_
    rw [activePath_addRule]
    exact hnested
  | keyframes hmode hname hsteps hstep hidentifier =>
    exact .keyframes hmode hname hsteps hstep hidentifier
  | step step hmode hname hsteps hstep hidentifier =>
    exact .step step hmode hname hsteps hstep hidentifier

theorem addRule {inner outer : List Dictionary} (h : s.TracksWith scope d inner outer)
    (rule : Rule) :
    (s.addRule rule).TracksWith scope { d with body := d.body.add rule } inner outer where
  frames := h.frames
  rules := by
    have hrules := h.rules
    unfold Stacks.addRule Body.add
    rw [← hrules]
    cases s.groups <;> simp [GroupRecord.innermostRules]
  groups := h.groups.modifyHead (fun hgroups => if_neg hgroups) fun _ => ⟨rfl, rfl⟩
  place := stands_addRule h.place rule
  identifiers := h.identifiers

/-- Where neither a rule set nor an animation is open, the reading stands in the body. -/
theorem outside {body : Body} {groups : List OpenGroup} {keyframes : Dictionary}
    {outer : List Dictionary} (hframes : s.frames = body.declarations :: outer)
    (hrules : GroupRecord.innermostRules s.rules s.groups = body.rules)
    (hgroups : Enclosed s.rules outer s.groups groups) (hidentifiers : s.identifiers = keyframes) :
    s.outside.Tracks scope ⟨body, .body, groups, keyframes⟩ := by
  refine ⟨[], outer, hframes, hrules, hgroups, .body ?_ ?_, hidentifiers⟩
  · unfold Stacks.outside
    dsimp only
    split <;> simp
  · unfold Stacks.outside
    dsimp only
    split <;> simp

theorem leaveRuleSet {path : List Text} {selector : Text} {inner outer : List Dictionary}
    {rules : List RuleSet} {body : Body} {groups : List OpenGroup} {keyframes : Dictionary}
    (hmode : s.mode = .ruleSet) (hpath : s.activePath = path ++ [selector])
    (hnested : Nested scope path inner rules)
    (hrules : GroupRecord.innermostRules s.rules s.groups = body.rules)
    (hgroups : Enclosed s.rules outer s.groups groups) (hidentifiers : s.identifiers = keyframes) :
    Agrees scope (Stacks.leaveRuleSet { s with frames := inner ++ body.declarations :: outer })
      (.ok ⟨body, .ofRuleSets rules, groups, keyframes⟩) := by
  have hactive : activePath { s with frames := inner ++ body.declarations :: outer } =
      path ++ [selector] := hpath
  cases hnested with
  | nil =>
    rw [Stacks.leaveRuleSet, hactive]
    refine .ok (outside rfl ((innermostRules_setPath _ _).trans hrules) ?_ hidentifiers)
    exact hgroups.modifyHead (fun _ => rfl) fun _ => ⟨rfl, rfl⟩
  | cons next selector' hselector hnested =>
    have hlength := List.length_pos_iff.2 hnested.path_ne_nil
    rw [leaveRuleSet_of_lt (by rw [hactive]; simp; omega), hactive, List.dropLast_concat]
    refine .ok ⟨_, outer, rfl, (innermostRules_setPath _ _).trans hrules, ?_, .ruleSet hmode ?_,
      hidentifiers⟩
    · exact hgroups.modifyHead (fun _ => rfl) fun _ => ⟨rfl, rfl⟩
    · rw [activePath_setPath]
      exact .cons next selector' hselector hnested

theorem closeRuleSet {current : RuleSet} {rules : List RuleSet} {inner outer : List Dictionary}
    {body : Body} {groups : List OpenGroup} {keyframes : Dictionary}
    (h : s.TracksWith scope ⟨body, .ruleSet current rules, groups, keyframes⟩ inner outer) :
    Agrees scope s.closeRuleSet
      (.ok ((Draft.mk body (.ruleSet current rules) groups keyframes).closeBlock scope)) := by
  have hclose : (Draft.mk body (.ruleSet current rules) groups keyframes).closeBlock scope =
      ⟨body.addRuleSet current, .ofRuleSets rules, groups, keyframes⟩ := by
    cases rules <;> rfl
  rw [hclose]
  have hadd := addRule h (.ruleSet current)
  obtain ⟨hframes, hrules, hgroups, hplace, hidentifiers⟩ := h
  cases hplace with
  | ruleSet hmode hnested =>
    generalize hpath : s.activePath = path at hnested
    cases hnested with
    | cons _ selector hselector hnested =>
      unfold Stacks.closeRuleSet Body.addRuleSet
      rw [hframes]
      dsimp only [List.cons_append]
      split
      · exact leaveRuleSet hmode hpath hnested hrules hgroups hidentifiers
      · rw [hpath, hselector]
        have hmode' : (s.addRule (.ruleSet current)).mode = .ruleSet := hmode
        have hpath' : (s.addRule (.ruleSet current)).activePath = _ :=
          (activePath_addRule s _).trans hpath
        exact leaveRuleSet hmode' hpath' hnested hadd.rules hadd.groups hidentifiers

theorem closeKeyframes {name : Text} {steps : List RuleSet} {step : Option RuleSet}
    {inner outer : List Dictionary} {body : Body} {groups : List OpenGroup} {keyframes : Dictionary}
    (h : s.TracksWith scope ⟨body, .keyframes name steps step, groups, keyframes⟩ inner outer) :
    Agrees scope s.closeKeyframes
      (.ok ((Draft.mk body (.keyframes name steps step) groups keyframes).closeBlock scope)) := by
  have hadd := addRule h (.keyframes (qualify scope name) steps)
  obtain ⟨hframes, hrules, hgroups, hplace, hidentifiers⟩ := h
  unfold Stacks.closeKeyframes
  cases hplace with
  | keyframes hmode hname hsteps hstep hidentifier =>
    rw [hstep, hname, hidentifier, hsteps]
    exact .ok (outside hframes hadd.rules hadd.groups hidentifiers)
  | step step hmode hname hsteps hstep hidentifier =>
    rw [hstep, hframes, hsteps]
    exact .ok ⟨[], outer, rfl, hrules, hgroups, .keyframes hmode hname rfl rfl hidentifier,
      hidentifiers⟩

theorem closeGroup {inner outer : List Dictionary} {body : Body} {groups : List OpenGroup}
    {keyframes : Dictionary}
    (h : s.TracksWith scope ⟨body, .body, groups, keyframes⟩ inner outer) (hne : s.groups ≠ []) :
    Agrees scope (s.closeGroup scope)
      (.ok ((Draft.mk body .body groups keyframes).closeBlock scope)) := by
  obtain ⟨declared, rules⟩ := body
  obtain ⟨hframes, hrules, hgroups, hplace, hidentifiers⟩ := h
  cases hplace with
  | body hruleSet hkeyframes =>
    unfold Stacks.closeGroup
    generalize hrecords : s.groups = records at hgroups hrules
    cases hgroups with
    | nil => exact absurd hrecords hne
    | @cons outer records _ declarations group henclosed =>
      obtain rfl : group.rules = rules := hrules
      rw [hframes]
      have htracks : TracksWith scope { s with groups := records, frames := declarations :: outer }
          ⟨⟨declarations, GroupRecord.innermostRules s.rules records⟩, .body, _, keyframes⟩ []
          outer := ⟨rfl, rfl, henclosed, .body hruleSet hkeyframes, hidentifiers⟩
      have hadd :=
        addRule htracks (.group group.type group.query (own scope declared ++ group.rules))
      exact .ok (outside hadd.frames hadd.rules hadd.groups hidentifiers)

theorem atTop_eq {inner outer : List Dictionary} (h : s.TracksWith scope d inner outer)
    (hb : s.Balanced scope) : d.atTop = decide (s.mode = .root) := by
  obtain ⟨body, place, groups, keyframes⟩ := d
  obtain ⟨-, -, hgroups, hplace, -⟩ := h
  cases hplace with
  | body hruleSet hkeyframes =>
    generalize hrecords : s.groups = records at hgroups
    cases hgroups with
    | nil =>
      have hmode : s.mode = .root :=
        (Mode.eq_root_or_eq_group hruleSet hkeyframes).resolve_right fun hgroup =>
          hb.group hgroup hrecords
      simp [Draft.atTop, hmode]
    | cons =>
      have hmode : s.mode ≠ .root := by
        intro hmode
        simp [hb.root hmode] at hrecords
      simp [Draft.atTop, hmode]
  | ruleSet hmode | keyframes hmode | step _ hmode => simp [Draft.atTop, hmode]

theorem closeInnermost (h : s.Tracks scope d) (hb : s.Balanced scope) (hroot : s.mode ≠ .root) :
    Agrees scope (s.closeInnermost scope) (.ok (d.closeBlock scope)) := by
  obtain ⟨body, place, groups, keyframes⟩ := d
  obtain ⟨inner, outer, h⟩ := h
  have hplace : Stands scope s inner place := h.place
  unfold Stacks.closeInnermost
  cases hplace with
  | body hruleSet hkeyframes =>
    have hmode := (Mode.eq_root_or_eq_group hruleSet hkeyframes).resolve_left hroot
    rw [hmode]
    exact closeGroup h (hb.group hmode)
  | ruleSet hmode =>
    rw [hmode]
    exact closeRuleSet h
  | keyframes hmode | step _ hmode =>
    rw [hmode]
    exact closeKeyframes h

theorem closeBlock (h : s.Tracks scope d) (hb : s.Balanced scope) (text : Text) :
    Agrees scope (s.closeBlock scope text) (d.read scope text .closeBrace) := by
  obtain ⟨inner, outer, hwith⟩ := h
  have hlast := declareLast ⟨inner, outer, hwith⟩ text
  have hsound := hb.declareLast text
  unfold Stacks.closeBlock Draft.read
  rw [atTop_eq hwith hb]
  by_cases hroot : s.mode = .root
  · simp only [hroot, if_true, decide_true]
    exact .fault _
  · simp only [hroot, if_false, decide_false, Bool.false_eq_true]
    generalize hs : s.declareLast text = result at hlast hsound
    generalize d.declareLast text = result' at hlast
    cases hlast with
    | fault fault => exact .fault fault
    | ok hnext =>
      obtain ⟨frames, rfl⟩ := exists_frames_of_declareLast hs
      cases hsound with
      | ok hbnext => exact closeInnermost hnext hbnext hroot

/-! ## All in all -/

/-- Stacks that track a draft and are balanced go on to track it at every delimiter, or both find
the same fault. -/
theorem read (h : s.Tracks scope d) (hb : s.Balanced scope) (text : Text) (delimiter : Delimiter) :
    Agrees scope (s.read scope text delimiter) (d.read scope text delimiter) := by
  cases delimiter with
  | semicolon => exact h.declare text
  | openBrace => exact h.openBlock hb text.trim
  | closeBrace => exact h.closeBlock hb text

theorem tree_eq (h : s.Tracks scope d) (hb : s.Balanced scope) (hroot : s.mode = .root) :
    s.tree scope = .ok ⟨d.body.rules ++ d.body.ownRules scope, d.keyframes⟩ := by
  obtain ⟨⟨declared, rules⟩, place, groups, keyframes⟩ := d
  obtain ⟨inner, outer, hframes, hrules, -, hplace, hidentifiers⟩ := h
  rw [hb.root hroot] at hrules
  obtain rfl : s.rules = rules := hrules
  obtain rfl : s.identifiers = keyframes := hidentifiers
  cases hplace with
  | body =>
    rw [tree, hframes]
    rfl
  | ruleSet hmode | keyframes hmode | step _ hmode => cases hroot.symm.trans hmode

/-- Both come to the same rule tree, or find the same fault. -/
theorem finish (h : s.Tracks scope d) (hb : s.Balanced scope) (text : Text) :
    s.finish scope text = (d.finish scope text).mapError Stop.fault := by
  obtain ⟨inner, outer, hwith⟩ := h
  have hlast := declareLast ⟨inner, outer, hwith⟩ text
  have hsound := hb.declareLast text
  unfold Stacks.finish Draft.finish
  rw [atTop_eq hwith hb]
  by_cases hroot : s.mode = .root
  · simp only [hroot, ne_eq, not_true_eq_false, if_false, decide_true, if_true]
    generalize hs : s.declareLast text = result at hlast hsound
    generalize d.declareLast text = result' at hlast
    cases hlast with
    | fault fault => rfl
    | ok hnext =>
      obtain ⟨frames, rfl⟩ := exists_frames_of_declareLast hs
      cases hsound with
      | ok hbnext => exact tree_eq hnext hbnext hroot
  · simp only [hroot, ne_eq, not_false_eq_true, if_true, decide_false, Bool.false_eq_true, if_false]
    rfl

end Tracks

end Stacks

end ScopedStyles
