import ScopedStyles.Rule.Printer

/-!
# Events

What is logged while sources are read and rules are handed on.

## Main definitions

* `Event` — what may happen.
* `Event.record` — an event as it is logged.
-/

namespace ScopedStyles

/-- What is worth a record. -/
inductive Event
  /-- The shared sheet has come into being. -/
  | sheetCreated
  /-- A source has been read. -/
  | parsed (rules keyframes : Nat) (scope : Text)
  /-- The rules of a tree have been printed. -/
  | generated (rules : Nat)
  /-- A sink has refused a rule. -/
  | refused (rule : Text)
  /-- All rules of a source have been offered to a sink. -/
  | inserted (accepted total : Nat) (scope : Text)
  deriving DecidableEq, Repr

/-- The events of a source that has been read and printed. -/
def RuleTree.events (scope : Text) (tree : RuleTree) : List Event :=
  [.parsed tree.rules.length tree.keyframes.size scope, .generated tree.texts.length]

/-- A line of the log. -/
structure LogRecord where
  level : Text
  /-- The part of the program that speaks. -/
  topic : Text
  message : Text
  deriving DecidableEq, Repr

/-- An event as it is logged. -/
def Event.record : Event → LogRecord
  | .sheetCreated =>
    ⟨"DEBUG".toList, "scopecss.stylesheet".toList, "Created default stylesheet".toList⟩
  | .parsed rules keyframes scope =>
    ⟨"DEBUG".toList, "scopecss.parser.scanner".toList,
      "Parsed ".toList ++ Text.ofNat rules ++ " top-level rule(s), ".toList ++
        Text.ofNat keyframes ++ " keyframes for scope ".toList ++ scope⟩
  | .generated rules =>
    ⟨"DEBUG".toList, "scopecss.generator".toList,
      "Generated ".toList ++ Text.ofNat rules ++ " rule(s)".toList⟩
  | .refused rule =>
    ⟨"WARNING".toList, "scopecss.css".toList,
      "Stylesheet could not understand the following rule: ".toList ++ rule⟩
  | .inserted accepted total scope =>
    ⟨"DEBUG".toList, "scopecss.css".toList,
      "Inserted ".toList ++ Text.ofNat accepted ++ " of ".toList ++ Text.ofNat total ++
        " rule(s) for scope ".toList ++ scope⟩

/-- A record on a line of its own. -/
def LogRecord.text (r : LogRecord) : Text :=
  r.level ++ ' ' :: r.topic ++ ": ".toList ++ r.message ++ ['\n']

end ScopedStyles
