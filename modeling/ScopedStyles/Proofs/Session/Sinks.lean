import ScopedStyles.Session

/-!
# What sinks take in

Whether a sink accepts a rule depends on the rule alone, and not on what has arrived before. So of
the rules that a sink is offered those that it accepts arrive, in their order and after all that is
there already, and the others are refused.

## Main definitions

* `Sink.accepts` — which rules a sink takes in.
* `Sink.append` — a sink in which rules have arrived.

## Main statements

* `Sink.offerAll_eq` — what arrives and what is refused.
-/

namespace ScopedStyles.Sink

/-- Whether a sink accepts a rule. -/
def accepts : Sink → Text → Bool
  | .sheet _, rule => (FlatRule.read rule).isOk
  | .recorder accepts _, rule => accepts rule

/-- The sink once some rules have arrived. -/
def append (sink : Sink) (rules : List Text) : Sink :=
  match sink with
  | .sheet s => .sheet { s with rules := s.rules ++ rules }
  | .recorder accepts before => .recorder accepts (before ++ rules)

@[simp] theorem rules_append (sink : Sink) (rules : List Text) :
    (sink.append rules).rules = sink.rules ++ rules := by
  cases sink <;> rfl

@[simp] theorem accepts_append (sink : Sink) (rules : List Text) :
    (sink.append rules).accepts = sink.accepts := by
  cases sink <;> rfl

@[simp] theorem append_nil (sink : Sink) : sink.append [] = sink := by
  cases sink <;> simp [append]

theorem append_append (sink : Sink) (rules rules' : List Text) :
    (sink.append rules).append rules' = sink.append (rules ++ rules') := by
  cases sink <;> simp [append]

theorem offer_eq (sink : Sink) (rule : Text) :
    sink.offer rule = if sink.accepts rule then some (sink.append [rule]) else none := by
  cases sink with
  | sheet s =>
    rw [offer, Sheet.insert_none, accepts]
    cases FlatRule.read rule <;> rfl
  | recorder accepts rules => rfl

/-- The rules that a sink accepts arrive, and the others are refused. -/
theorem offerAll_eq (sink : Sink) (rules : List Text) :
    sink.offerAll rules = (sink.append (rules.filter sink.accepts),
      rules.filter fun rule => !sink.accepts rule) := by
  induction rules generalizing sink with
  | nil => simp [offerAll]
  | cons rule rules ih =>
    rw [offerAll, offer_eq]
    by_cases h : sink.accepts rule
    · simp [h, ih, append_append]
    · simp [h, ih]

end ScopedStyles.Sink
