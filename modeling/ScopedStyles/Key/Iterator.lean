import ScopedStyles.Key.Stream

/-!
# Iterators over a stream of scope keys

Keys are taken from a stream by calling it or through iterators over it, of which there may be
several at a time. An iterator holds no keys. It calls the stream whenever it is asked for its next
key, so all who take keys from a stream share its count.

## Main definitions

* `KeyTaker` — who takes a key.
* `KeyStream.takeTurns` — callers and iterators take keys in turns.
-/

namespace ScopedStyles

/-- Who takes a key from a stream. -/
inductive KeyTaker
  | caller
  | iterator (number : Nat)
  deriving DecidableEq, Repr

namespace KeyStream

/-- The next key, for whoever takes it. -/
def drawFor (s : KeyStream) : KeyTaker → Text × KeyStream
  | .caller => s.draw
  | .iterator _ => s.draw

/-- The keys that are taken in some turns, each with its taker. -/
def takeTurns (s : KeyStream) : List KeyTaker → List (KeyTaker × Text) × KeyStream
  | [] => ([], s)
  | taker :: turns =>
    let (key, s) := s.drawFor taker
    let (keys, s) := s.takeTurns turns
    ((taker, key) :: keys, s)

theorem drawFor_eq (s : KeyStream) (taker : KeyTaker) : s.drawFor taker = s.draw := by
  cases taker <;> rfl

theorem takeTurns_eq_drawMany (s : KeyStream) (turns : List KeyTaker) :
    s.takeTurns turns =
      (turns.zip (s.drawMany turns.length).1, (s.drawMany turns.length).2) := by
  induction turns generalizing s with
  | nil => rfl
  | cons taker turns ih =>
    simp only [takeTurns, drawFor_eq, ih, List.length_cons, KeyStream.drawMany, List.zip_cons_cons]

/-- Each turn takes the next key, whoever's turn it is. -/
theorem takeTurns_eq (s : KeyStream) (turns : List KeyTaker) :
    s.takeTurns turns = (turns.zip ((List.range' s.drawn turns.length).map s.key),
      { s with drawn := s.drawn + turns.length }) := by
  rw [takeTurns_eq_drawMany, drawMany_eq]

end KeyStream

end ScopedStyles
