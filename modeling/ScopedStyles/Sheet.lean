import ScopedStyles.FlatRule.Reader

/-!
# Sheets

A sheet is a list of flat rules, kept as texts. A rule is read before it goes in, so a sheet that
is only changed by the operations here holds flat rules and nothing else.

## Main definitions

* `Sheet.insert`, `Sheet.delete`, `Sheet.clear` — the operations.
* `SheetError` — why an operation is refused.
-/

namespace ScopedStyles

/-- A list of flat rules. -/
structure Sheet where
  title : Option Text := none
  rules : List Text := []
  deriving DecidableEq, Repr

/-- Why an operation on a sheet is refused. -/
inductive SheetError
  /-- The text is not a flat rule. -/
  | rejected (rule : Text) (rejection : Rejection)
  /-- There is no such place in the sheet. -/
  | outOfRange (index : Int)
  deriving DecidableEq, Repr

/-- What is said about a refusal. -/
def SheetError.message : SheetError → Text
  | rejected rule rejection => rejection.message rule
  | outOfRange index => "Rule index ".toList ++ Text.ofInt index ++ " out of range".toList

namespace Sheet

/-- The sheet that rules go to where no other is named. -/
def shared : Sheet where
  title := some "scopecss".toList

/-- Puts a rule at an index, or last if no index is given, and tells where it stands. Whether the
text is a rule is looked at before the index. -/
def insert (s : Sheet) (rule : Text) (index : Option Int) : Except SheetError (Sheet × Nat) :=
  match FlatRule.read rule with
  | .error rejection => .error (.rejected rule rejection)
  | .ok _ =>
    let i := index.getD s.rules.length
    if 0 ≤ i ∧ i ≤ s.rules.length then
      .ok ({ s with rules := s.rules.insertIdx i.toNat rule }, i.toNat)
    else .error (.outOfRange i)

/-- Takes out the rule at an index. -/
def delete (s : Sheet) (index : Int) : Except SheetError Sheet :=
  if 0 ≤ index ∧ index < s.rules.length then
    .ok { s with rules := s.rules.eraseIdx index.toNat }
  else .error (.outOfRange index)

/-- Takes out all rules. -/
def clear (s : Sheet) : Sheet :=
  { s with rules := [] }

/-- The rules of a sheet, one on a line. -/
def text (s : Sheet) : Text :=
  ['\n'].intercalate s.rules

/-- A sheet in short: its title and the number of its rules. -/
def summary (s : Sheet) : Text :=
  "StyleSheet(title=".toList ++ (s.title.map Text.quoted).getD "None".toList ++ ", rules=".toList ++
    Text.ofNat s.rules.length ++ [')']

/-- Without an index, a text goes in exactly if it is a flat rule, and then it comes last. -/
theorem insert_none (s : Sheet) (rule : Text) :
    s.insert rule none = match FlatRule.read rule with
      | .error rejection => .error (.rejected rule rejection)
      | .ok _ => .ok ({ s with rules := s.rules ++ [rule] }, s.rules.length) := by
  unfold insert
  split <;> simp [List.insertIdx_length_self]

end Sheet

end ScopedStyles
