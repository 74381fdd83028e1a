import ScopedStyles.Key.Alphabet

/-!
# Streams of scope keys

A stream hands out the words of an alphabet in their order, each after the same lead. No key is
handed out twice, and the short ones come first.

## Main definitions

* `KeyStream.draw` — takes the next key.
* `KeyStream.drawMany` — takes several keys.
-/

namespace ScopedStyles

/-- A supply of scope keys. -/
structure KeyStream where
  alphabet : Alphabet
  /-- What every key starts with. -/
  lead : Text := []
  /-- How many keys have been taken. -/
  drawn : Nat := 0

namespace KeyStream

/-- The key with a given number. -/
def key (s : KeyStream) (i : Nat) : Text :=
  s.lead ++ s.alphabet.wordAt i

/-- Takes the next key. -/
def draw (s : KeyStream) : Text × KeyStream :=
  (s.key s.drawn, { s with drawn := s.drawn + 1 })

/-- Takes the next `n` keys. -/
def drawMany : Nat → KeyStream → List Text × KeyStream
  | 0, s => ([], s)
  | n + 1, s =>
    let (key, s) := s.draw
    let (keys, s) := drawMany n s
    (key :: keys, s)

theorem drawMany_eq (n : Nat) (s : KeyStream) :
    s.drawMany n = ((List.range' s.drawn n).map s.key, { s with drawn := s.drawn + n }) := by
  induction n generalizing s with
  | zero => rfl
  | succ n ih =>
    simp only [drawMany, draw, ih, List.range'_succ, List.map_cons]
    congr 2
    omega

end KeyStream

end ScopedStyles
