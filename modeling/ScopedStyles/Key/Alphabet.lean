import ScopedStyles.Text.Basic

/-!
# Alphabets and their words

The non-empty words over an alphabet, the shorter ones first and those of one length in the order
of the letters, are numbered from zero. With `b` letters this is the numeration to the base `b`
whose digits run from one to `b`, so every number has exactly one numeral.

## Main definitions

* `Alphabet` — letters, at least one and none twice.
* `Alphabet.wordAt` — the word with a given number.
-/

namespace ScopedStyles

/-- At least one letter and no letter twice. -/
structure Alphabet where
  letters : List Char
  letters_ne_nil : letters ≠ []
  nodup_letters : letters.Nodup
  deriving DecidableEq

namespace Alphabet

/-- The alphabet with the letters of a text, if they make one. -/
def ofText? (t : Text) : Option Alphabet :=
  if h : t ≠ [] ∧ t.Nodup then some ⟨t, h.1, h.2⟩ else none

/-- What is said about letters that make no alphabet. -/
def requirement : Text :=
  "alphabet must be non-empty with no repeated characters".toList

/-- The number of letters. -/
def size (a : Alphabet) : Nat :=
  a.letters.length

theorem size_pos (a : Alphabet) : 0 < a.size :=
  List.length_pos_iff.2 a.letters_ne_nil

/-- The letter with a given number, counted round and round. -/
def letter (a : Alphabet) (i : Nat) : Char :=
  a.letters.get ⟨i % a.size, Nat.mod_lt i a.size_pos⟩

/-- The numeral of `n` in front of `tail`. The numeral of zero is empty. -/
def numeral (a : Alphabet) (n : Nat) (tail : Text) : Text :=
  match n with
  | 0 => tail
  | n + 1 => numeral a (n / a.size) (a.letter n :: tail)
termination_by n
decreasing_by exact Nat.lt_succ_of_le (Nat.div_le_self n a.size)

/-- The word with a given number. No word has a negative number, and the empty word stands in. -/
def wordAt (a : Alphabet) (i : Int) : Text :=
  a.numeral (i + 1).toNat []

@[simp] theorem numeral_zero (a : Alphabet) (tail : Text) : a.numeral 0 tail = tail := by
  rw [numeral]

theorem numeral_succ (a : Alphabet) (n : Nat) (tail : Text) :
    a.numeral (n + 1) tail = a.numeral (n / a.size) (a.letter n :: tail) := by
  rw [numeral]

theorem numeral_eq_append (a : Alphabet) (n : Nat) (tail : Text) :
    a.numeral n tail = a.numeral n [] ++ tail := by
  induction n using Nat.strongRecOn generalizing tail with
  | ind n ih =>
    cases n with
    | zero => simp
    | succ n =>
      have h := ih (n / a.size) (Nat.lt_succ_of_le (Nat.div_le_self n a.size))
      rw [numeral_succ, numeral_succ, h, h [a.letter n]]
      simp

end Alphabet

end ScopedStyles
