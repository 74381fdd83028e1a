import ScopedStyles.Delimiter
import ScopedStyles.FlatRule.Part
import ScopedStyles.Text.Location
import ScopedStyles.Text.Quoted

/-!
# Reading flat rules

A text is cut at its delimiters and read part by part. What has been read so far fixes which parts
and delimiters may come next, so the first part or delimiter that may not is where the text stops
being the beginning of a flat rule.

## Main definitions

* `FlatDraft` — what has been read, and what is expected.
* `FlatRule.read` — the flat rule that a text is.
* `Rejection` — why a text is none.
-/

namespace ScopedStyles

/-- What may come next. -/
inductive Expected
  /-- A rule, or the end of the group around it. -/
  | rule
  /-- A step, or the end of the animation. -/
  | step (name : Text) (steps : List StyleRule)
  /-- A declaration, or the end of the style rule, which may be a step of an animation. -/
  | declaration (rule : StyleRule) (animation : Option (Text × List StyleRule))
  /-- Nothing, for the rule is complete. -/
  | nothing (rule : FlatRule)

/-- A group whose block is open, with the rules read in it. -/
structure OpenFlatGroup where
  type : GroupType
  query : Text
  rules : List FlatRule := []

/-- What has been read of a flat rule. -/
structure FlatDraft where
  expected : Expected := .rule
  /-- The open groups, the innermost first. -/
  groups : List OpenFlatGroup := []

/-- Reads the part that is expected. -/
def Expected.part : Expected → Text → Except Text Part
  | .rule => Part.head
  | .step _ _ => Part.step
  | .declaration _ _ => Part.declaration
  | .nothing _ => Part.nothing

namespace FlatDraft

/-- The draft after a rule that stands in the given groups. -/
def complete (rule : FlatRule) : List OpenFlatGroup → FlatDraft
  | [] => ⟨.nothing rule, []⟩
  | group :: outer => ⟨.rule, { group with rules := group.rules ++ [rule] } :: outer⟩

/-- The draft after a part and a delimiter, if they may come next. -/
def take (d : FlatDraft) (part : Part) (delimiter : Delimiter) : Option FlatDraft :=
  match d.expected, part, delimiter with
  | .rule, .style selector, .openBrace =>
    some { d with expected := .declaration { selector } none }
  | .rule, .keyframes name, .openBrace => some { d with expected := .step name [] }
  | .rule, .group type query, .openBrace =>
    some { expected := .rule, groups := { type, query } :: d.groups }
  | .rule, .blank, .closeBrace =>
    match d.groups with
    | [] => none
    | group :: outer => some (complete (.group group.type group.query group.rules) outer)
  | .step name steps, .style selector, .openBrace =>
    some { d with expected := .declaration { selector } (some (name, steps)) }
  | .step name steps, .blank, .closeBrace => some (complete (.keyframes name steps) d.groups)
  | .declaration rule animation, .declared property value, .semicolon =>
    let rule := { rule with declarations := rule.declarations ++ [(property, value)] }
    some { d with expected := .declaration rule animation }
  | .declaration rule none, .blank, .closeBrace => some (complete (.style rule) d.groups)
  | .declaration rule (some (name, steps)), .blank, .closeBrace =>
    some { d with expected := .step name (steps ++ [rule]) }
  | _, _, _ => none

/-- The draft after some pieces of a text, or the offset of the first character that may not stand
where it stands. -/
def readAll (d : FlatDraft) : List Chunk → Except Nat FlatDraft
  | [] => .ok d
  | chunk :: chunks =>
    match d.expected.part chunk.text with
    | .error unread => .error (chunk.offset - unread.length)
    | .ok part =>
      match d.take part chunk.delimiter with
      | some d => d.readAll chunks
      | none => .error chunk.offset

/-- The rule that is complete when a text of the given length ends in `rest`, or the offset of the
first character that may not stand where it stands. -/
def finish (d : FlatDraft) (rest : Text) (length : Nat) : Except Nat FlatRule :=
  match d.expected.part rest with
  | .error unread => .error (length - unread.length)
  | .ok _ =>
    match d.expected with
    | .nothing rule => .ok rule
    | _ => .error length

end FlatDraft

/-- Why a text is not a flat rule. -/
inductive Rejection
  /-- It ends too early. -/
  | endOfText
  /-- A character may not stand where it stands. -/
  | unexpected (c : Char) (offset : Nat)
  deriving DecidableEq, Repr

namespace Rejection

/-- The rejection of a text that cannot be read beyond an offset. -/
def ofOffset (t : Text) (offset : Nat) : Rejection :=
  match t[offset]? with
  | none => .endOfText
  | some c => .unexpected c offset

/-- What is said about the rejection of a text. -/
def reason (t : Text) : Rejection → Text
  | .endOfText => "Unexpected end-of-input. Expected one of: ".toList
  | .unexpected c offset =>
    let place := t.locate offset
    "No terminal matches '".toList ++ c :: "' in the current parser context, at line ".toList ++
      Text.ofNat place.line ++ " col ".toList ++ Text.ofNat place.column

/-- The rejection of a text in full. -/
def message (t : Text) (r : Rejection) : Text :=
  "Rejected rule ".toList ++ t.quoted ++ ": ".toList ++ r.reason t

end Rejection

/-- The flat rule that a text is. -/
def FlatRule.read (t : Text) : Except Rejection FlatRule :=
  match FlatDraft.readAll {} (Chunk.cut t) with
  | .error offset => .error (.ofOffset t offset)
  | .ok d => (d.finish (Chunk.rest t) t.length).mapError (.ofOffset t)

/-- Whether a text is a flat rule. -/
def FlatRule.accepts (t : Text) : Bool :=
  (FlatRule.read t).isOk

theorem FlatRule.accepts_iff_exists {t : Text} :
    FlatRule.accepts t ↔ ∃ flat, FlatRule.read t = .ok flat := by
  cases h : FlatRule.read t <;> simp [accepts, h, Except.isOk, Except.toBool]

end ScopedStyles
