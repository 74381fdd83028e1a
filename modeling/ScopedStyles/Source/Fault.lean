import ScopedStyles.Text.Location

/-!
# Faults of a source

What can be wrong with a source, and how it is reported.

## Main definitions

* `Fault` — the causes, with `Fault.message` and `Fault.fragment`.
* `ParseError` — a fault and where it was found.
* `Report` — an error as it is handed on, when not all of it need be known.
-/

namespace ScopedStyles

/-- What is wrong with a source. -/
inductive Fault
  /-- An opening brace that opens no block: nothing stands before it, or it stands in a step of an
  animation. -/
  | unexpectedOpenBrace (header : Text)
  /-- A closing brace outside all blocks. -/
  | unbalancedCloseBrace
  /-- A declaration that lacks the colon, the property or the value. -/
  | invalidDeclaration (text : Text)
  /-- An at-rule of a kind that is not known. -/
  | disallowedAtRule (header : Text)
  /-- An at-rule inside a rule set or an animation. -/
  | unexpectedAtRule (header : Text)
  /-- A block that is still open at the end. -/
  | unclosedBlock
  deriving DecidableEq, Repr

namespace Fault

/-- What is said about a fault. -/
def message : Fault → Text
  | unexpectedOpenBrace _ => "Unexpected \x7b".toList
  | unbalancedCloseBrace => "Unbalanced \x7d".toList
  | invalidDeclaration text => "Invalid declaration: ".toList ++ text
  | disallowedAtRule _ =>
    "The only at-rules allowed are @keyframes, @media, and @supports".toList
  | unexpectedAtRule _ => "Unexpected at-rule".toList
  | unclosedBlock => "Unclosed block at end of input".toList

/-- The part of the source that a fault is about: the text in front of the brace or the semicolon,
the brace itself where there is no such text, and nothing at the end of the source. -/
def fragment : Fault → Text
  | unexpectedOpenBrace [] => ['{']
  | unexpectedOpenBrace header => header
  | unbalancedCloseBrace => ['}']
  | invalidDeclaration text => text
  | disallowedAtRule header => header
  | unexpectedAtRule header => header
  | unclosedBlock => []

end Fault

/-- A fault and where it was found: at a delimiter, or at the end of the source. -/
structure ParseError where
  fault : Fault
  offset : Nat
  location : Location
  deriving DecidableEq, Repr

/-- An error as it is handed on. The place need not be known. -/
structure Report where
  message : Text
  fragment : Text := []
  position : Option Int := none
  line : Option Int := none
  column : Option Int := none
  deriving DecidableEq, Repr

/-- The place of a report in words. Nothing is said if the line is not known. -/
def Report.location (r : Report) : Text :=
  match r.line with
  | none => []
  | some line =>
    "line ".toList ++ Text.ofInt line ++ ", column ".toList ++
      (r.column.map Text.ofInt).getD "None".toList

/-- The report of an error. -/
def ParseError.report (e : ParseError) : Report where
  message := e.fault.message
  fragment := e.fault.fragment
  position := some e.offset
  line := some e.location.line
  column := some e.location.column

end ScopedStyles
