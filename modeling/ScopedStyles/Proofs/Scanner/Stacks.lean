import ScopedStyles.Selector
import ScopedStyles.Delimiter
import ScopedStyles.Source.Fault
import ScopedStyles.Source.Header

/-!
# Stacks of a scanner

What has been read of a source can also be kept in stacks that grow and shrink on their own: one of
the blocks that may hold declarations, one of the open groups, and for each group, and for the
source, a path of selectors. What the stacks have to do with each other is not said by their types.
So an operation that takes something from a stack, or looks something up, crashes where nothing is
found.

## Main definitions

* `Mode` — what the reading is inside of.
* `Stacks` — the stacks, and the rest of what is remembered.
* `Stop` — why the reading ends early: with a fault of the source, or with a crash.
* `Stacks.declare`, `Stacks.openBlock`, `Stacks.closeBlock`, `Stacks.finish` — what happens at a
  semicolon, at the two braces, and at the end.
-/

namespace ScopedStyles

/-- What the reading is inside of. -/
inductive Mode
  /-- Outside all blocks. -/
  | root
  | ruleSet
  | keyframes
  /-- Directly in a group. -/
  | group
  deriving DecidableEq, Repr

theorem Mode.eq_root_or_eq_group {mode : Mode} (hruleSet : mode ≠ .ruleSet)
    (hkeyframes : mode ≠ .keyframes) : mode = .root ∨ mode = .group := by
  cases mode with
  | root => exact .inl rfl
  | group => exact .inr rfl
  | ruleSet => exact absurd rfl hruleSet
  | keyframes => exact absurd rfl hkeyframes

/-- Why the reading ends early. -/
inductive Stop
  /-- There is something wrong with the source. -/
  | fault (fault : Fault)
  /-- A stack or a path has no entry where one is taken from it. -/
  | empty
  /-- A name is looked up that has not been entered. -/
  | unknownName
  deriving DecidableEq, Repr

/-- A group whose block is open. -/
structure GroupRecord where
  type : GroupType
  query : Text
  /-- The selectors of the open rule sets in the group, the outermost first, after that of the
  scope. -/
  path : List Text
  rules : List Rule := []
  deriving Repr

/-- What a scanner remembers of the blocks it has read. -/
structure Stacks where
  mode : Mode := .root
  rules : List Rule := []
  /-- The qualified names of the animations met so far. -/
  identifiers : Dictionary := ∅
  /-- The selectors of the open rule sets outside all groups, the outermost first, after that of the
  scope. -/
  path : List Text
  /-- What the open blocks declare that may hold declarations, the innermost first. The last one is
  for the source itself. -/
  frames : List Dictionary := [∅]
  /-- The name of the animation that is open. -/
  name : Text := []
  /-- The selector of the step that is open. -/
  step : Option Text := none
  steps : List RuleSet := []
  /-- The open groups, the innermost first. -/
  groups : List GroupRecord := []
  deriving Repr

namespace Stacks

/-- The stacks before anything has been read. -/
def start (scope : Text) : Stacks where
  path := [Selector.ofScope scope]

/-! ## What is innermost -/

/-- The path of the innermost group, or of the source. -/
def activePath (s : Stacks) : List Text :=
  match s.groups with
  | [] => s.path
  | group :: _ => group.path

/-- The paths of all open groups, the innermost first, and of the source. -/
def paths (s : Stacks) : List (List Text) :=
  s.groups.map GroupRecord.path ++ [s.path]

/-- The stacks where the reading is in no rule set and no animation. -/
def outside (s : Stacks) : Stacks :=
  { s with mode := if s.groups = [] then .root else .group }

/-- Another path in place of the active one. -/
def setPath (s : Stacks) (path : List Text) : Stacks :=
  { s with
    path := if s.groups = [] then path else s.path
    groups := s.groups.modifyHead fun group => { group with path } }

/-- One more rule after the active ones. -/
def addRule (s : Stacks) (rule : Rule) : Stacks :=
  { s with
    rules := if s.groups = [] then s.rules ++ [rule] else s.rules
    groups := s.groups.modifyHead fun group => { group with rules := group.rules ++ [rule] } }

section

variable (s : Stacks) (path : List Text) (rule : Rule)

theorem paths_eq_cons : s.paths = s.activePath :: s.paths.tail := by
  unfold paths activePath
  cases s.groups <;> rfl

/-- The mode in no rule set and no animation says whether a group is open. -/
theorem mode_outside : s.outside.mode = .root ∧ s.groups = [] ∨
    s.outside.mode = .group ∧ s.groups ≠ [] := by
  unfold outside
  by_cases hgroups : s.groups = []
  · exact .inl ⟨if_pos hgroups, hgroups⟩
  · exact .inr ⟨if_neg hgroups, hgroups⟩

@[simp] theorem activePath_setPath : (s.setPath path).activePath = path := by
  unfold setPath activePath
  cases s.groups <;> simp

@[simp] theorem paths_setPath : (s.setPath path).paths = path :: s.paths.tail := by
  unfold setPath paths
  cases s.groups <;> simp

@[simp] theorem length_groups_setPath : (s.setPath path).groups.length = s.groups.length := by
  simp [setPath]

@[simp] theorem activePath_addRule : (s.addRule rule).activePath = s.activePath := by
  unfold addRule activePath
  cases s.groups <;> simp

@[simp] theorem paths_addRule : (s.addRule rule).paths = s.paths := by
  unfold addRule paths
  cases s.groups <;> simp

@[simp] theorem length_groups_addRule : (s.addRule rule).groups.length = s.groups.length := by
  simp [addRule]

end

/-! ## Declarations -/

/-- Declares something in the innermost block. -/
def declare (s : Stacks) (text : Text) : Except Stop Stacks :=
  match Source.declaration? text with
  | none => .error (.fault (.invalidDeclaration text))
  | some (property, value) =>
    match s.frames with
    | [] => .error .empty
    | declarations :: frames =>
      .ok { s with frames := declarations.insert property value :: frames }

/-- Declares something whose semicolon was left out. Blanks alone are nothing. -/
def declareLast (s : Stacks) (text : Text) : Except Stop Stacks :=
  if text.trim = [] then .ok s else s.declare text.trim

/-- A declaration changes the innermost frame only. -/
theorem exists_frames_of_declare {s s' : Stacks} {text : Text} (h : s.declare text = .ok s') :
    ∃ frames, s' = { s with frames } := by
  unfold declare at h
  split at h
  · cases h
  split at h
  · cases h
  · cases h
    exact ⟨_, rfl⟩

theorem exists_frames_of_declareLast {s s' : Stacks} {text : Text}
    (h : s.declareLast text = .ok s') : ∃ frames, s' = { s with frames } := by
  unfold declareLast at h
  split at h
  · cases h
    exact ⟨s.frames, rfl⟩
  · exact exists_frames_of_declare h

/-! ## Opening a block -/

/-- Opens the block of a rule set. -/
def openRuleSet (s : Stacks) (selector : Text) : Stacks :=
  { s.setPath (s.activePath ++ [selector]) with frames := ∅ :: s.frames, mode := .ruleSet }

section

variable (scope : Text)

/-- Opens a block in no rule set and no animation. -/
def openOutside (s : Stacks) (header : Text) : Except Stop Stacks :=
  match Header.ofText header with
  | .keyframes name =>
    .ok { s with
      name
      identifiers := s.identifiers.insert name (qualify scope name)
      mode := .keyframes }
  | .group type query =>
    .ok { s with
      groups := ⟨type, query, [Selector.ofScope scope], []⟩ :: s.groups
      frames := ∅ :: s.frames
      mode := .group }
  | .unknown => .error (.fault (.disallowedAtRule header))
  | .selector => .ok (s.openRuleSet header)

/-- Opens the block of a header. -/
def openBlock (s : Stacks) (header : Text) : Except Stop Stacks :=
  if header = [] then .error (.fault (.unexpectedOpenBrace []))
  else if s.mode = .root ∨ s.mode = .group then s.openOutside scope header
  else if header.head? = some '@' then .error (.fault (.unexpectedAtRule header))
  else if s.mode = .ruleSet then .ok (s.openRuleSet header)
  else
    match s.step with
    | some _ => .error (.fault (.unexpectedOpenBrace header))
    | none => .ok { s with step := some header, frames := ∅ :: s.frames }

end

/-! ## Closing a block -/

/-- Takes the last selector from the active path. When only that of the scope is left, the reading
is in no rule set any more. -/
def leaveRuleSet (s : Stacks) : Except Stop Stacks :=
  match s.activePath with
  | [] => .error .empty
  | [outermost, _] => .ok (s.setPath [outermost]).outside
  | path => .ok (s.setPath path.dropLast)

theorem leaveRuleSet_of_lt {s : Stacks} (h : 2 < s.activePath.length) :
    s.leaveRuleSet = .ok (s.setPath s.activePath.dropLast) := by
  unfold leaveRuleSet
  split
  · next hpath => simp [hpath] at h
  · next hpath => simp [hpath] at h
  · rfl

/-- Closes the block of a rule set. One that declares nothing is left out. -/
def closeRuleSet (s : Stacks) : Except Stop Stacks :=
  match s.frames with
  | [] => .error .empty
  | declarations :: frames =>
    if declarations.isEmpty then leaveRuleSet { s with frames }
    else
      match Selector.join? s.activePath with
      | none => .error .empty
      | some selector =>
        leaveRuleSet { s.addRule (.ruleSet ⟨selector, declarations⟩) with frames }

/-- Closes the block of a step, if one is open, or else that of the animation. Steps that declare
nothing are left out. -/
def closeKeyframes (s : Stacks) : Except Stop Stacks :=
  match s.step with
  | some selector =>
    match s.frames with
    | [] => .error .empty
    | declarations :: frames =>
      .ok { s with
        frames
        step := none
        steps := if declarations.isEmpty then s.steps else s.steps ++ [⟨selector, declarations⟩] }
  | none =>
    match s.identifiers.get? s.name with
    | none => .error .unknownName
    | some identifier =>
      .ok (outside { s.addRule (.keyframes identifier s.steps) with name := [], steps := [] })

section

variable (scope : Text)

/-- The rule set that a group's own declarations, or those of the source, make. -/
def own (declarations : Dictionary) : List Rule :=
  if declarations.isEmpty then [] else [.ruleSet ⟨Selector.ofScope scope, declarations⟩]

/-- Closes the block of a group. What it declares itself comes before its rules. -/
def closeGroup (s : Stacks) : Except Stop Stacks :=
  match s.groups, s.frames with
  | [], _ | _, [] => .error .empty
  | group :: groups, declarations :: frames =>
    let rule : Rule := .group group.type group.query (own scope declarations ++ group.rules)
    .ok (addRule { s with groups, frames } rule).outside

/-- Closes the innermost block. -/
def closeInnermost (s : Stacks) : Except Stop Stacks :=
  match s.mode with
  | .group => s.closeGroup scope
  | .ruleSet => s.closeRuleSet
  | .root | .keyframes => s.closeKeyframes

/-- Closes the innermost block, at whose end a declaration may be pending. -/
def closeBlock (s : Stacks) (text : Text) : Except Stop Stacks :=
  if s.mode = .root then .error (.fault .unbalancedCloseBrace)
  else (s.declareLast text).bind (closeInnermost scope)

/-- What happens at a delimiter before which a text is pending. -/
def read (s : Stacks) (text : Text) : Delimiter → Except Stop Stacks
  | .semicolon => s.declare text
  | .openBrace => s.openBlock scope text.trim
  | .closeBrace => s.closeBlock scope text

/-- The rule tree that has been read. The declarations outside all blocks come last. -/
def tree (s : Stacks) : Except Stop RuleTree :=
  match s.frames with
  | [] => .error .empty
  | declarations :: _ => .ok ⟨s.rules ++ own scope declarations, s.identifiers⟩

/-- The rule tree at the end of the source. -/
def finish (s : Stacks) (text : Text) : Except Stop RuleTree :=
  if s.mode ≠ .root then .error (.fault .unclosedBlock)
  else (s.declareLast text).bind (tree scope)

end

end Stacks

end ScopedStyles
