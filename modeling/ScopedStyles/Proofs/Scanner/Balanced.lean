import ScopedStyles.Proofs.Scanner.Stacks

/-!
# Balanced stacks

The stacks of a scanner grow and shrink together. So nothing is ever taken from an empty stack, and
no name is looked up that has not been entered.

## Main definitions

* `Stacks.Balanced` — what the stacks have to do with each other.
* `Stacks.Sound` — results that are balanced, or faults of the source.

## Main statements

* `Stacks.balanced_start` — the stacks are balanced at first.
* `Stacks.Balanced.read` — and stay so at every delimiter, unless there is a fault.
* `Stacks.Balanced.finish` — nor is there a crash at the end.
-/

namespace ScopedStyles

namespace Stacks

/-- The stacks belong together. -/
structure Balanced (scope : Text) (s : Stacks) : Prop where
  /-- There is a frame for the source, for each group, for each rule set and for a step. -/
  frames : s.frames.length =
    s.groups.length + s.activePath.length + if s.step.isSome then 1 else 0
  ruleSet : s.mode = .ruleSet ↔ 2 ≤ s.activePath.length
  /-- No rule set is open around a group. -/
  idle : ∀ path ∈ s.paths.tail, path.length = 1
  rooted : ∀ path ∈ s.paths, path.head? = some (Selector.ofScope scope)
  root : s.mode = .root → s.groups = []
  group : s.mode = .group → s.groups ≠ []
  step : s.step ≠ none ∨ s.steps ≠ [] → s.mode = .keyframes
  name : s.mode = .keyframes → s.name ∈ s.identifiers.keys

/-- What may come of an operation on balanced stacks: balanced stacks, or a fault. -/
inductive Sound (scope : Text) : Except Stop Stacks → Prop
  | ok {s : Stacks} (h : s.Balanced scope) : Sound scope (.ok s)
  | fault (fault : Fault) : Sound scope (.error (.fault fault))

variable {scope : Text} {s : Stacks}

theorem balanced_start (scope : Text) : (start scope).Balanced scope where
  frames := rfl
  ruleSet := by simp [start, activePath]
  idle := by simp [start, paths]
  rooted := by simp [start, paths]
  root _ := rfl
  group h := by cases h
  step h := by simp [start] at h
  name h := by cases h

namespace Balanced

/-! ## What balance comes to -/

theorem head?_activePath (h : s.Balanced scope) :
    s.activePath.head? = some (Selector.ofScope scope) :=
  h.rooted s.activePath (by rw [paths_eq_cons]; exact List.mem_cons_self)

theorem exists_activePath (h : s.Balanced scope) :
    ∃ rest, s.activePath = Selector.ofScope scope :: rest := by
  have hhead := h.head?_activePath
  cases hpath : s.activePath with
  | nil => simp [hpath] at hhead
  | cons first rest =>
    obtain rfl : first = Selector.ofScope scope := by simpa [hpath] using hhead
    exact ⟨rest, rfl⟩

/-- Outside rule sets the active path leads to the scope only. -/
theorem activePath_eq (h : s.Balanced scope) (hmode : s.mode ≠ .ruleSet) :
    s.activePath = [Selector.ofScope scope] := by
  obtain ⟨rest, hpath⟩ := h.exists_activePath
  have hlength := mt h.ruleSet.2 hmode
  cases rest with
  | nil => exact hpath
  | cons => simp [hpath] at hlength

theorem step_eq_none (h : s.Balanced scope) (hmode : s.mode ≠ .keyframes) : s.step = none := by
  cases hstep : s.step with
  | none => rfl
  | some selector => exact absurd (h.step (.inl (by simp [hstep]))) hmode

theorem steps_eq_nil (h : s.Balanced scope) (hmode : s.mode ≠ .keyframes) : s.steps = [] := by
  cases hsteps : s.steps with
  | nil => rfl
  | cons step steps => exact absurd (h.step (.inr (by simp [hsteps]))) hmode

theorem exists_frames (h : s.Balanced scope) : ∃ frame frames, s.frames = frame :: frames := by
  obtain ⟨rest, hpath⟩ := h.exists_activePath
  have hframes := h.frames
  rw [hpath, List.length_cons] at hframes
  exact List.exists_cons_of_length_pos (by omega)

/-! ## Declarations -/

/-- Only the number of frames counts. -/
theorem setFrames (h : s.Balanced scope) {frames : List Dictionary}
    (hlength : frames.length = s.frames.length) : Balanced scope { s with frames } :=
  { h with frames := hlength.trans h.frames }

theorem declare (h : s.Balanced scope) (text : Text) : Sound scope (s.declare text) := by
  obtain ⟨frame, frames, hframes⟩ := h.exists_frames
  unfold Stacks.declare
  split
  · exact .fault _
  · rw [hframes]
    exact .ok (h.setFrames (by simp [hframes]))

theorem declareLast (h : s.Balanced scope) (text : Text) : Sound scope (s.declareLast text) := by
  unfold Stacks.declareLast
  split
  · exact .ok h
  · exact h.declare _

/-! ## Opening a block -/

theorem openRuleSet (h : s.Balanced scope) (hmode : s.mode ≠ .keyframes) (selector : Text) :
    (s.openRuleSet selector).Balanced scope := by
  obtain ⟨rest, hpath⟩ := h.exists_activePath
  have hactive : (s.openRuleSet selector).activePath = s.activePath ++ [selector] :=
    activePath_setPath s _
  have hpaths : (s.openRuleSet selector).paths = (s.activePath ++ [selector]) :: s.paths.tail :=
    paths_setPath s _
  have hgroups : (s.openRuleSet selector).groups.length = s.groups.length :=
    length_groups_setPath s _
  constructor
  case frames =>
    rw [hactive, hgroups]
    change s.frames.length + 1 = _ + _ + if s.step.isSome then 1 else 0
    rw [h.frames, List.length_append, List.length_singleton]
    omega
  case ruleSet =>
    rw [hactive, hpath]
    exact iff_of_true rfl (by simp)
  case idle => simpa [hpaths] using h.idle
  case rooted =>
    rw [hpaths]
    refine List.forall_mem_cons.2 ⟨by simp [hpath], fun path hmem => h.rooted path ?_⟩
    exact List.mem_of_mem_tail hmem
  case root =>
    intro hroot
    cases hroot
  case group =>
    intro hgroup
    cases hgroup
  case step =>
    intro hpending
    exact absurd (h.step hpending) hmode
  case name =>
    intro hkeyframes
    cases hkeyframes

theorem openKeyframes (h : s.Balanced scope) (hmode : s.mode ≠ .ruleSet) (name identifier : Text) :
    Balanced scope { s with
      name, identifiers := s.identifiers.insert name identifier, mode := .keyframes } where
  frames := h.frames
  ruleSet := iff_of_false (by simp) (mt h.ruleSet.2 hmode)
  idle := h.idle
  rooted := h.rooted
  root hroot := by cases hroot
  group hgroup := by cases hgroup
  step _ := rfl
  name _ := Dictionary.mem_keys_insert_self _ _ _

theorem openGroup (h : s.Balanced scope) (hruleSet : s.mode ≠ .ruleSet)
    (hkeyframes : s.mode ≠ .keyframes) (type : GroupType) (query : Text) :
    Balanced scope { s with
      groups := ⟨type, query, [Selector.ofScope scope], []⟩ :: s.groups
      frames := ∅ :: s.frames
      mode := .group } where
  frames := by
    have hframes := h.frames
    rw [h.activePath_eq hruleSet] at hframes
    change s.frames.length + 1 = (s.groups.length + 1) + 1 + if s.step.isSome then 1 else 0
    rw [hframes, List.length_singleton]
    omega
  ruleSet := iff_of_false (by simp) (by simp [activePath])
  idle := by
    have hpath := h.activePath_eq hruleSet
    change ∀ path ∈ s.paths, path.length = 1
    rw [paths_eq_cons]
    exact List.forall_mem_cons.2 ⟨by rw [hpath]; rfl, h.idle⟩
  rooted := List.forall_mem_cons.2 ⟨rfl, h.rooted⟩
  root hroot := by cases hroot
  group _ := by simp
  step hpending := absurd (h.step hpending) hkeyframes
  name hname := by cases hname

theorem openStep (h : s.Balanced scope) (hmode : s.mode = .keyframes) (hstep : s.step = none)
    (selector : Text) :
    Balanced scope { s with step := some selector, frames := ∅ :: s.frames } where
  frames := by
    have hframes := h.frames
    rw [hstep] at hframes
    change s.frames.length + 1 = s.groups.length + s.activePath.length + 1
    rw [hframes]
    simp
  ruleSet := h.ruleSet
  idle := h.idle
  rooted := h.rooted
  root := h.root
  group := h.group
  step _ := hmode
  name := h.name

theorem openOutside (h : s.Balanced scope) (hmode : s.mode = .root ∨ s.mode = .group)
    (header : Text) : Sound scope (s.openOutside scope header) := by
  have hruleSet : s.mode ≠ .ruleSet := by
    rcases hmode with hmode | hmode <;> simp [hmode]
  have hkeyframes : s.mode ≠ .keyframes := by
    rcases hmode with hmode | hmode <;> simp [hmode]
  unfold Stacks.openOutside
  split
  · exact .ok (h.openKeyframes hruleSet _ _)
  · exact .ok (h.openGroup hruleSet hkeyframes _ _)
  · exact .fault _
  · exact .ok (h.openRuleSet hkeyframes header)

theorem openBlock (h : s.Balanced scope) (header : Text) :
    Sound scope (s.openBlock scope header) := by
  unfold Stacks.openBlock
  split
  · exact .fault _
  split
  · next hmode => exact h.openOutside hmode header
  split
  · exact .fault _
  split
  · next hmode => exact .ok (h.openRuleSet (by simp [hmode]) header)
  split
  · exact .fault _
  · next hruleSet _ hstep =>
    have hmode : s.mode = .keyframes := by
      cases hmode : s.mode <;> simp_all
    exact .ok (h.openStep hmode hstep header)

/-! ## Closing a block -/

theorem addRule (h : s.Balanced scope) (rule : Rule) : (s.addRule rule).Balanced scope where
  frames := by
    rw [length_groups_addRule, activePath_addRule]
    exact h.frames
  ruleSet := by
    rw [activePath_addRule]
    exact h.ruleSet
  idle := by
    rw [paths_addRule]
    exact h.idle
  rooted := by
    rw [paths_addRule]
    exact h.rooted
  root hroot := by simp [Stacks.addRule, h.root hroot]
  group hgroup := by simpa [Stacks.addRule] using h.group hgroup
  step := h.step
  name := h.name

/-- Where neither a rule set nor an animation is open, the mode says whether a group is. -/
theorem outside (hframes : s.frames.length = s.groups.length + 1)
    (hactive : s.activePath.length = 1) (hidle : ∀ path ∈ s.paths.tail, path.length = 1)
    (hrooted : ∀ path ∈ s.paths, path.head? = some (Selector.ofScope scope))
    (hstep : s.step = none) (hsteps : s.steps = []) : s.outside.Balanced scope where
  frames := by
    change s.frames.length = s.groups.length + s.activePath.length + if s.step.isSome then 1 else 0
    simp [hframes, hactive, hstep]
  ruleSet := by
    refine iff_of_false (fun hruleSet => ?_) ?_
    · rcases s.mode_outside with ⟨hmode, -⟩ | ⟨hmode, -⟩ <;> cases hmode.symm.trans hruleSet
    · change ¬ 2 ≤ s.activePath.length
      omega
  idle := hidle
  rooted := hrooted
  root hroot := by
    rcases s.mode_outside with ⟨-, hgroups⟩ | ⟨hmode, -⟩
    · exact hgroups
    · cases hmode.symm.trans hroot
  group hgroup := by
    rcases s.mode_outside with ⟨hmode, -⟩ | ⟨-, hgroups⟩
    · cases hmode.symm.trans hgroup
    · exact hgroups
  step hpending := by
    rcases hpending with hpending | hpending
    · exact absurd hstep hpending
    · exact absurd hsteps hpending
  name hname := by
    rcases s.mode_outside with ⟨hmode, -⟩ | ⟨hmode, -⟩ <;> cases hmode.symm.trans hname

/-- A shorter path balances one frame less, if it still starts at the scope. -/
theorem rooted_setPath (h : s.Balanced scope) {path : List Text}
    (hpath : path.head? = some (Selector.ofScope scope)) (frames : List Dictionary) :
    ∀ p ∈ (setPath { s with frames } path).paths, p.head? = some (Selector.ofScope scope) := by
  rw [paths_setPath]
  refine List.forall_mem_cons.2 ⟨hpath, fun p hp => h.rooted p ?_⟩
  exact List.mem_of_mem_tail hp

theorem idle_setPath (h : s.Balanced scope) (frames : List Dictionary) (path : List Text) :
    ∀ p ∈ (setPath { s with frames } path).paths.tail, p.length = 1 := by
  rw [paths_setPath]
  exact h.idle

theorem leaveRuleSet (h : s.Balanced scope) (hmode : s.mode = .ruleSet) {frames : List Dictionary}
    (hframes : s.frames.length = frames.length + 1) :
    Sound scope (Stacks.leaveRuleSet { s with frames }) := by
  obtain ⟨rest, hpath⟩ := h.exists_activePath
  have hlength := h.ruleSet.1 hmode
  have hcount := h.frames
  have hstep := h.step_eq_none (by simp [hmode])
  have hsteps := h.steps_eq_nil (by simp [hmode])
  have hactive : activePath { s with frames } = Selector.ofScope scope :: rest := hpath
  rw [hstep, hpath, hframes] at hcount
  rw [hpath] at hlength
  rw [Stacks.leaveRuleSet, hactive]
  match rest with
  | [] => simp at hlength
  | [selector] =>
    refine .ok (outside ?_ ?_ (h.idle_setPath _ _) (h.rooted_setPath rfl _) hstep hsteps)
    · rw [length_groups_setPath]
      change frames.length = s.groups.length + 1
      simpa using hcount
    · rw [activePath_setPath]
      rfl
  | selector :: inner :: rest =>
    refine .ok ⟨?_, ?_, h.idle_setPath _ _, h.rooted_setPath rfl _, ?_, ?_, h.step, ?_⟩
    · rw [length_groups_setPath, activePath_setPath]
      change frames.length = s.groups.length + _ + if s.step.isSome then 1 else 0
      simp only [hstep, Option.isSome_none, Bool.false_eq_true, if_false, List.length_dropLast]
      simp only [Option.isSome_none, Bool.false_eq_true, if_false, List.length_cons] at hcount ⊢
      omega
    · rw [activePath_setPath]
      exact iff_of_true hmode (by simp)
    · intro hroot
      cases hmode.symm.trans hroot
    · intro hgroup
      cases hmode.symm.trans hgroup
    · intro hname
      cases hmode.symm.trans hname

theorem closeRuleSet (h : s.Balanced scope) (hmode : s.mode = .ruleSet) :
    Sound scope s.closeRuleSet := by
  obtain ⟨declarations, frames, hframes⟩ := h.exists_frames
  obtain ⟨rest, hpath⟩ := h.exists_activePath
  have hlength : s.frames.length = frames.length + 1 := by simp [hframes]
  unfold Stacks.closeRuleSet
  rw [hframes]
  dsimp only
  split
  · exact h.leaveRuleSet hmode hlength
  · rw [hpath]
    exact (h.addRule _).leaveRuleSet hmode hlength

theorem closeStep (h : s.Balanced scope) (hstep : s.step.isSome) {frames : List Dictionary}
    (hframes : s.frames.length = frames.length + 1) (steps : List RuleSet) :
    Balanced scope { s with frames, step := none, steps } where
  frames := by
    have hcount := h.frames
    rw [hstep] at hcount
    change frames.length = s.groups.length + s.activePath.length + 0
    simp at hcount
    omega
  ruleSet := h.ruleSet
  idle := h.idle
  rooted := h.rooted
  root := h.root
  group := h.group
  step _ := h.step (.inl (Option.isSome_iff_ne_none.1 hstep))
  name := h.name

theorem closeKeyframes (h : s.Balanced scope) (hmode : s.mode = .keyframes) :
    Sound scope s.closeKeyframes := by
  obtain ⟨declarations, frames, hframes⟩ := h.exists_frames
  have hlength : s.frames.length = frames.length + 1 := by simp [hframes]
  have hpath := h.activePath_eq (by simp [hmode])
  unfold Stacks.closeKeyframes
  cases hstep : s.step with
  | some selector =>
    dsimp only
    rw [hframes]
    exact .ok (h.closeStep (by simp [hstep]) hlength _)
  | none =>
    obtain ⟨identifier, hidentifier⟩ := Dictionary.exists_get?_of_mem_keys (h.name hmode)
    have hadd := h.addRule (.keyframes identifier s.steps)
    dsimp only
    rw [hidentifier]
    have hcount := hadd.frames
    have hactive : (s.addRule (.keyframes identifier s.steps)).activePath.length = 1 := by
      rw [activePath_addRule, hpath]
      rfl
    have hnone : (s.addRule (.keyframes identifier s.steps)).step = none := hstep
    rw [hactive, hnone] at hcount
    exact .ok (outside hcount hactive hadd.idle hadd.rooted hstep rfl)

theorem closeGroup (h : s.Balanced scope) (hmode : s.mode = .group) :
    Sound scope (s.closeGroup scope) := by
  obtain ⟨declarations, frames, hframes⟩ := h.exists_frames
  obtain ⟨group, groups, hgroups⟩ := List.exists_cons_of_ne_nil (h.group hmode)
  have hcount := h.frames
  have hpath := h.activePath_eq (by simp [hmode])
  have hstep := h.step_eq_none (by simp [hmode])
  have hsteps := h.steps_eq_nil (by simp [hmode])
  -- The path of the group around is the first of the paths that were idle.
  have hpaths : paths { s with groups, frames } = s.paths.tail := by
    simp [paths, hgroups]
  have hactive : activePath { s with groups, frames } ∈ s.paths.tail := by
    rw [← hpaths, paths_eq_cons]
    exact List.mem_cons_self
  rw [hpath, hstep, hframes, hgroups] at hcount
  unfold Stacks.closeGroup
  rw [hframes, hgroups]
  refine .ok (outside ?_ ?_ ?_ ?_ hstep hsteps)
  · rw [length_groups_addRule]
    change frames.length = groups.length + 1
    simpa using hcount
  · rw [activePath_addRule]
    exact h.idle _ hactive
  · rw [paths_addRule, hpaths]
    exact fun path hmem => h.idle path (List.mem_of_mem_tail hmem)
  · rw [paths_addRule, hpaths]
    exact fun path hmem => h.rooted path (List.mem_of_mem_tail hmem)

theorem closeInnermost (h : s.Balanced scope) (hroot : s.mode ≠ .root) :
    Sound scope (s.closeInnermost scope) := by
  unfold Stacks.closeInnermost
  split
  · next hmode => exact h.closeGroup hmode
  · next hmode => exact h.closeRuleSet hmode
  · next hmode => exact absurd hmode hroot
  · next hmode => exact h.closeKeyframes hmode

theorem closeBlock (h : s.Balanced scope) (text : Text) :
    Sound scope (s.closeBlock scope text) := by
  have hlast := h.declareLast text
  unfold Stacks.closeBlock
  split
  · exact .fault _
  next hroot =>
    cases hdeclare : s.declareLast text with
    | error stop =>
      rw [hdeclare] at hlast
      cases hlast
      exact .fault _
    | ok next =>
      rw [hdeclare] at hlast
      obtain ⟨frames, rfl⟩ := exists_frames_of_declareLast hdeclare
      cases hlast with
      | ok hnext => exact hnext.closeInnermost hroot

/-! ## All in all -/

/-- Balanced stacks stay balanced at every delimiter, unless there is a fault. -/
theorem read (h : s.Balanced scope) (text : Text) (delimiter : Delimiter) :
    Sound scope (s.read scope text delimiter) := by
  cases delimiter with
  | semicolon => exact h.declare text
  | openBrace => exact h.openBlock text.trim
  | closeBrace => exact h.closeBlock text

/-- With balanced stacks there is a rule tree at the end, or a fault. -/
theorem finish (h : s.Balanced scope) (text : Text) :
    (∃ tree, s.finish scope text = .ok tree) ∨
      ∃ fault, s.finish scope text = .error (.fault fault) := by
  have hlast := h.declareLast text
  unfold Stacks.finish
  split
  · exact .inr ⟨_, rfl⟩
  · cases hdeclare : s.declareLast text with
    | error stop =>
      rw [hdeclare] at hlast
      cases hlast
      exact .inr ⟨_, rfl⟩
    | ok next =>
      rw [hdeclare] at hlast
      cases hlast with
      | ok hnext =>
        obtain ⟨declarations, frames, hframes⟩ := hnext.exists_frames
        exact .inl ⟨_, by rw [Except.bind, tree, hframes]⟩

end Balanced

end Stacks

end ScopedStyles
