import Mathlib.Data.List.Shortlex
import Mathlib.Data.List.Nodup
import Mathlib.Data.List.Induction
import Mathlib.Data.Set.Function
import ScopedStyles.Key.Alphabet

/-!
# The order of the words

A numeral can be read back: the digit of a letter is its place in the alphabet, counted from one,
and every digit is worth as much as all letters together are worth one place further on. There is no
digit zero, so the empty word is the numeral of zero and each number has one numeral. Numerals grow
as their words do, the shorter words first and those of one length in the order of the alphabet.

## Main definitions

* `Alphabet.words` — what can be spelled with the letters.
* `Alphabet.Before` — the order of the alphabet.
* `Alphabet.value` — the number of which a word is the numeral.

## Main statements

* `Alphabet.value_numeral`, `Alphabet.numeral_value` — numerals are written and read back.
* `Alphabet.value_lt_value_iff` — values grow in shortlex order.
* `Alphabet.bijOn_wordAt`, `Alphabet.wordAt_shortlex_iff` — every word has one number, and the
  numbers are in the order of the words.
-/

namespace ScopedStyles

/-- Words are in the order of what stands before their last letters, and if that is the same, in the
order of these. -/
theorem Text.shortlex_concat_iff {r : Char → Char → Prop} {s t : Text} {c d : Char} :
    List.Shortlex r (s ++ [c]) (t ++ [d]) ↔ List.Shortlex r s t ∨ s = t ∧ r c d := by
  have hlex : s.length = t.length →
      (List.Lex r (s ++ [c]) (t ++ [d]) ↔ List.Lex r s t ∨ s = t ∧ r c d) := by
    induction s generalizing t with
    | nil =>
      intro hlength
      obtain rfl := List.eq_nil_of_length_eq_zero hlength.symm
      simp
    | cons x s ih =>
      intro hlength
      cases t with
      | nil => simp at hlength
      | cons y t =>
        have hrest := ih (t := t) (by simpa using hlength)
        grind [List.cons_lex_cons_iff]
  simp only [List.shortlex_def, List.length_append, List.length_singleton]
  grind

namespace Alphabet

variable (a : Alphabet)

/-- What can be spelled with the letters, but for the empty word. -/
def words : Set Text :=
  {w | w ≠ [] ∧ ∀ c ∈ w, c ∈ a.letters}

/-- The order of the alphabet. -/
def Before (c d : Char) : Prop :=
  a.letters.idxOf c < a.letters.idxOf d

/-- The number of which a word is the numeral. -/
def value (w : Text) : Nat :=
  w.foldl (fun n c => n * a.size + (a.letters.idxOf c + 1)) 0

@[simp] theorem value_nil : a.value [] = 0 := rfl

@[simp] theorem value_concat (w : Text) (c : Char) :
    a.value (w ++ [c]) = a.value w * a.size + (a.letters.idxOf c + 1) := by
  simp [value]

theorem letter_mem (n : Nat) : a.letter n ∈ a.letters :=
  List.getElem_mem _

theorem idxOf_letter (n : Nat) : a.letters.idxOf (a.letter n) = n % a.size :=
  a.nodup_letters.idxOf_getElem _ _

theorem idxOf_lt_size {c : Char} (h : c ∈ a.letters) : a.letters.idxOf c < a.size :=
  List.idxOf_lt_length_iff.2 h

theorem letter_idxOf {c : Char} (h : c ∈ a.letters) (n : Nat) :
    a.letter (n * a.size + a.letters.idxOf c) = c := by
  have hmod : (n * a.size + a.letters.idxOf c) % a.size = a.letters.idxOf c := by
    rw [Nat.mul_add_mod', Nat.mod_eq_of_lt (a.idxOf_lt_size h)]
  simp [letter, hmod]

theorem numeral_succ_eq_concat (n : Nat) :
    a.numeral (n + 1) [] = a.numeral (n / a.size) [] ++ [a.letter n] := by
  rw [numeral_succ, numeral_eq_append]

theorem mem_letters_of_mem_numeral {n : Nat} {c : Char} (h : c ∈ a.numeral n []) :
    c ∈ a.letters := by
  induction n using Nat.strongRecOn with
  | ind n ih =>
    cases n with
    | zero => simp at h
    | succ n =>
      rw [numeral_succ_eq_concat] at h
      rcases List.mem_append.1 h with h | h
      · exact ih _ (Nat.lt_succ_of_le (Nat.div_le_self n a.size)) h
      · exact List.mem_singleton.1 h ▸ a.letter_mem n

/-- A numeral is read back as the number for which it was written. -/
theorem value_numeral (n : Nat) : a.value (a.numeral n []) = n := by
  induction n using Nat.strongRecOn with
  | ind n ih =>
    cases n with
    | zero => simp
    | succ n =>
      have hquotient := ih (n / a.size) (Nat.lt_succ_of_le (Nat.div_le_self n a.size))
      rw [numeral_succ_eq_concat, value_concat, hquotient, idxOf_letter]
      have hdivision := Nat.div_add_mod' n a.size
      omega

/-- Every word over the letters is the numeral of its value. -/
theorem numeral_value {w : Text} (h : ∀ c ∈ w, c ∈ a.letters) : a.numeral (a.value w) [] = w := by
  induction w using List.reverseRecOn with
  | nil => simp
  | append_singleton w c ih =>
    obtain ⟨hw, hc⟩ := List.forall_mem_append.1 h
    have hplace := a.idxOf_lt_size (hc c (List.mem_singleton_self c))
    have hquotient : (a.value w * a.size + a.letters.idxOf c) / a.size = a.value w := by
      rw [Nat.mul_comm, Nat.mul_add_div a.size_pos, Nat.div_eq_of_lt hplace, Nat.add_zero]
    rw [value_concat, ← Nat.add_assoc, numeral_succ_eq_concat, hquotient, ih hw,
      a.letter_idxOf (hc c (List.mem_singleton_self c))]

theorem value_inj {w w' : Text} (h : ∀ c ∈ w, c ∈ a.letters) (h' : ∀ c ∈ w', c ∈ a.letters) :
    a.value w = a.value w' ↔ w = w' := by
  refine ⟨fun heq => ?_, fun heq => heq ▸ rfl⟩
  rw [← a.numeral_value h, heq, a.numeral_value h']

/-- The digits in front decide before the last digit does. -/
theorem mul_size_add_lt_iff {m n i j : Nat} (hi : i < a.size) (hj : j < a.size) :
    m * a.size + (i + 1) < n * a.size + (j + 1) ↔ m < n ∨ m = n ∧ i < j := by
  rcases Nat.lt_trichotomy m n with hlt | rfl | hgt
  · have hstep : m * a.size + a.size ≤ n * a.size := Nat.succ_mul m _ ▸ Nat.mul_le_mul_right _ hlt
    omega
  · omega
  · have hstep : n * a.size + a.size ≤ m * a.size := Nat.succ_mul n _ ▸ Nat.mul_le_mul_right _ hgt
    omega

/-- Values grow with the words. The induction takes away the last letters, since the values of what
is left decide first. -/
theorem value_lt_value_iff {w w' : Text} (h : ∀ c ∈ w, c ∈ a.letters)
    (h' : ∀ c ∈ w', c ∈ a.letters) :
    a.value w < a.value w' ↔ List.Shortlex a.Before w w' := by
  induction w using List.reverseRecOn generalizing w' with
  | nil =>
    cases w' using List.reverseRecOn with
    | nil => simp
    | append_singleton w' d => simp [List.shortlex_def]
  | append_singleton w c ih =>
    cases w' using List.reverseRecOn with
    | nil => simp
    | append_singleton w' d =>
      obtain ⟨hw, hc⟩ := List.forall_mem_append.1 h
      obtain ⟨hw', hd⟩ := List.forall_mem_append.1 h'
      have hcplace := a.idxOf_lt_size (hc c (List.mem_singleton_self c))
      have hdplace := a.idxOf_lt_size (hd d (List.mem_singleton_self d))
      rw [Text.shortlex_concat_iff, ← ih hw hw', ← a.value_inj hw hw', value_concat, value_concat]
      exact a.mul_size_add_lt_iff hcplace hdplace

/-! ## Numbers -/

theorem wordAt_eq_numeral (i : Nat) : a.wordAt i = a.numeral (i + 1) [] := rfl

theorem value_wordAt (i : Nat) : a.value (a.wordAt i) = i + 1 :=
  a.value_numeral (i + 1)

theorem wordAt_mem_words (i : Nat) : a.wordAt i ∈ a.words := by
  constructor
  · intro hnil
    have hvalue := a.value_wordAt i
    simp [hnil] at hvalue
  · exact fun c hc => a.mem_letters_of_mem_numeral hc

theorem exists_wordAt_eq {w : Text} (h : w ∈ a.words) : ∃ i : Nat, a.wordAt i = w := by
  obtain ⟨hne, hletters⟩ := h
  have hword := a.numeral_value hletters
  cases hvalue : a.value w with
  | zero =>
    rw [hvalue, numeral_zero] at hword
    exact absurd hword.symm hne
  | succ i => exact ⟨i, by rw [wordAt_eq_numeral, ← hvalue, hword]⟩

theorem wordAt_injective : Function.Injective fun i : Nat => a.wordAt i := by
  intro i j h
  have hvalue := congrArg a.value h
  simpa [value_wordAt] using hvalue

/-- Every non-empty word has one number. -/
theorem bijOn_wordAt : Set.BijOn (fun i : Nat => a.wordAt i) Set.univ a.words :=
  ⟨fun i _ => a.wordAt_mem_words i, a.wordAt_injective.injOn,
    fun _ h => (a.exists_wordAt_eq h).imp fun _ hi => ⟨trivial, hi⟩⟩

/-- The numbers are in the order of the words. -/
theorem wordAt_shortlex_iff (i j : Nat) :
    List.Shortlex a.Before (a.wordAt i) (a.wordAt j) ↔ i < j := by
  rw [← a.value_lt_value_iff (a.wordAt_mem_words i).2 (a.wordAt_mem_words j).2, value_wordAt,
    value_wordAt]
  exact Nat.add_lt_add_iff_right

end Alphabet

end ScopedStyles
