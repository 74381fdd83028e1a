import ScopedStyles.Key.Iterator
import ScopedStyles.Proofs.Key.Shortlex

/-!
# The keys of a stream

A stream hands out the words over its alphabet in shortlex order, from the first one on and without
leaving any out. Nothing else is known about the keys but the lead in front of each.

## Main statements

* `KeyStream.key_injective` — keys with different numbers are different.
* `keys_enumerate_words` — the words, their numbers and the keys that are taken in turns.
-/

namespace ScopedStyles

namespace KeyStream

/-- Keys with different numbers are different. -/
theorem key_injective (s : KeyStream) : Function.Injective s.key := by
  intro i j h
  exact s.alphabet.wordAt_injective (List.append_cancel_left h)

theorem nodup_map_key (s : KeyStream) (first count : Nat) :
    ((List.range' first count).map s.key).Nodup :=
  (List.nodup_range' ..).map s.key_injective

end KeyStream

namespace Alphabet

variable (a : Alphabet)

/-- The words with the numbers below a bound. -/
def wordsBelow (n : Nat) : List Text :=
  (List.range n).map fun i : Nat => a.wordAt i

theorem pairwise_wordsBelow (n : Nat) : (a.wordsBelow n).Pairwise (List.Shortlex a.Before) := by
  rw [wordsBelow, List.pairwise_map]
  exact List.pairwise_lt_range.imp fun hlt => (a.wordAt_shortlex_iff _ _).2 hlt

/-- What comes before one of these words is one of them. -/
theorem mem_wordsBelow_of_shortlex {n : Nat} {w earlier : Text} (h : w ∈ a.wordsBelow n)
    (hearlier : earlier ∈ a.words) (hlt : List.Shortlex a.Before earlier w) :
    earlier ∈ a.wordsBelow n := by
  obtain ⟨i, hi, rfl⟩ := List.mem_map.1 h
  obtain ⟨j, rfl⟩ := a.exists_wordAt_eq hearlier
  have hji := (a.wordAt_shortlex_iff j i).1 hlt
  have hin := List.mem_range.1 hi
  exact List.mem_map_of_mem (List.mem_range.2 (hji.trans hin))

end Alphabet

/-- The numerals of an alphabet are a bijection between the natural numbers and the non-empty words
over it, and they grow with the words in shortlex order. Of a new stream, callers and iterators take
one key a turn: the keys are all different, and what follows the lead are words in shortlex order
with none left out. -/
theorem keys_enumerate_words (a : Alphabet) :
    Set.BijOn (fun i : Nat => a.wordAt i) Set.univ a.words ∧
    (∀ i j : Nat, i < j ↔ (a.wordAt i).length < (a.wordAt j).length ∨
      (a.wordAt i).length = (a.wordAt j).length ∧
        List.Lex a.Before (a.wordAt i) (a.wordAt j)) ∧
    ∀ (lead : Text) (turns : List KeyTaker), ∃ words : List Text,
      (KeyStream.takeTurns ⟨a, lead, 0⟩ turns).1 = turns.zip (words.map (lead ++ ·)) ∧
      words.length = turns.length ∧ (words.map (lead ++ ·)).Nodup ∧
      words.Pairwise (List.Shortlex a.Before) ∧
      ∀ word ∈ words, word ∈ a.words ∧
        ∀ earlier ∈ a.words, List.Shortlex a.Before earlier word → earlier ∈ words := by
  refine ⟨a.bijOn_wordAt, fun i j => ?_, fun lead turns => ?_⟩
  · rw [← a.wordAt_shortlex_iff, List.shortlex_def]
  · have hkeys : (List.range' 0 turns.length).map (KeyStream.key ⟨a, lead, 0⟩) =
        (a.wordsBelow turns.length).map (lead ++ ·) := by
      rw [Alphabet.wordsBelow, List.map_map, ← List.range_eq_range']
      rfl
    have hnodup := KeyStream.nodup_map_key ⟨a, lead, 0⟩ 0 turns.length
    refine ⟨a.wordsBelow turns.length, ?_, by simp [Alphabet.wordsBelow], hkeys ▸ hnodup,
      a.pairwise_wordsBelow _, fun word hword => ⟨?_, fun earlier => ?_⟩⟩
    · rw [KeyStream.takeTurns_eq, hkeys]
    · obtain ⟨i, -, rfl⟩ := List.mem_map.1 hword
      exact a.wordAt_mem_words i
    · exact a.mem_wordsBelow_of_shortlex hword

end ScopedStyles
