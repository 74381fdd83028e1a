import Mathlib.Data.List.DropRight
import ScopedStyles.Text.Blank

/-!
# Trimming

What is left of a text once the blanks at its two ends are gone.

## Main statements

* `Text.Trimmed` — no blank stands at either end of a text.
* `Text.trim_eq_of_blank` — a trimmed text between blanks is what trimming leaves.
* `Text.exists_eq_trim` — what trimming takes away is blank.
-/

namespace ScopedStyles.Text

/-- No blank stands at either end. -/
structure Trimmed (t : Text) : Prop where
  head : ∀ c ∈ t.head?, isBlank c = false
  last : ∀ c ∈ t.getLast?, isBlank c = false

instance (t : Text) : Decidable t.Trimmed :=
  have := Option.decidableForallMem (p := fun c => isBlank c = false)
  decidable_of_iff ((∀ c ∈ t.head?, isBlank c = false) ∧ ∀ c ∈ t.getLast?, isBlank c = false)
    ⟨fun h => ⟨h.1, h.2⟩, fun h => ⟨h.head, h.last⟩⟩

theorem trimEnd_eq_rdropWhile (t : Text) : trimEnd t = t.rdropWhile isBlank := rfl

theorem trimEnd_append_of_blank {b : Text} (hb : ∀ c ∈ b, isBlank c = true) (t : Text) :
    trimEnd (t ++ b) = trimEnd t := by
  unfold trimEnd
  rw [List.reverse_append, List.dropWhile_append_of_pos (by simpa using hb)]

theorem trimEnd_eq_self {t : Text} (h : ∀ c ∈ t.getLast?, isBlank c = false) : trimEnd t = t := by
  rw [trimEnd_eq_rdropWhile, List.rdropWhile_eq_self_iff]
  intro hne
  simp [h _ (List.getLast?_eq_getLast_of_ne_nil hne)]

theorem trim_eq_nil_iff {t : Text} : trim t = [] ↔ ∀ c ∈ t, isBlank c = true := by
  rw [trim, trimEnd_eq_rdropWhile, List.rdropWhile_eq_nil_iff]
  constructor
  · intro h c hc
    rw [← List.takeWhile_append_dropWhile (p := isBlank) (l := t), List.mem_append] at hc
    exact hc.elim (fun hc => List.mem_takeWhile_imp hc) (h c)
  · exact fun h c hc => h c ((List.dropWhile_sublist isBlank).subset hc)

/-- A trimmed text with blanks before and after it is what trimming leaves. -/
theorem trim_eq_of_blank {a t b : Text} (ha : ∀ c ∈ a, isBlank c = true) (ht : Trimmed t)
    (hb : ∀ c ∈ b, isBlank c = true) : trim (a ++ t ++ b) = t := by
  cases t with
  | nil => grind [trim_eq_nil_iff]
  | cons c t =>
    have hstart : trimStart (a ++ (c :: t) ++ b) = (c :: t) ++ b := by
      rw [trimStart, List.append_assoc, List.dropWhile_append_of_pos ha]
      simp [ht.head c (by simp)]
    rw [trim, hstart, trimEnd_append_of_blank hb, trimEnd_eq_self ht.last]

theorem trim_eq_self {t : Text} (h : Trimmed t) : trim t = t := by
  simpa using trim_eq_of_blank (a := []) (b := []) (by simp) h (by simp)

theorem trimmed_trim (t : Text) : Trimmed (trim t) where
  head c hc := by
    obtain ⟨rest, hrest⟩ : trim t <+: trimStart t := List.rdropWhile_prefix isBlank (trimStart t)
    have hhead : (t.dropWhile isBlank).head? = some c := by
      rw [← trimStart, ← hrest]
      exact List.mem_head?_append_of_mem_head? hc
    simpa [hhead] using List.head?_dropWhile_not isBlank t
  last c hc := by
    have hne : trim t ≠ [] := by
      rintro h
      simp [h] at hc
    rw [List.getLast?_eq_getLast_of_ne_nil hne, Option.mem_some_iff] at hc
    rw [← hc, ← Bool.not_eq_true]
    exact List.rdropWhile_last_not isBlank (trimStart t) hne

@[simp] theorem trim_trim (t : Text) : trim (trim t) = trim t :=
  trim_eq_self (trimmed_trim t)

/-- Trimming takes blanks away and nothing else. -/
theorem exists_eq_trim (t : Text) :
    ∃ a b, t = a ++ trim t ++ b ∧ (∀ c ∈ a, isBlank c = true) ∧ ∀ c ∈ b, isBlank c = true := by
  refine ⟨t.takeWhile isBlank, (trimStart t).rtakeWhile isBlank, ?_, ?_, ?_⟩
  · rw [List.append_assoc, trim, trimEnd_eq_rdropWhile, List.rdropWhile_append_rtakeWhile]
    exact List.takeWhile_append_dropWhile.symm
  · exact fun c hc => List.mem_takeWhile_imp hc
  · exact fun c hc => List.mem_rtakeWhile_imp hc

/-- Blanks around a text make no difference once it is trimmed. -/
theorem trim_append_of_blank {a b : Text} (ha : ∀ c ∈ a, isBlank c = true)
    (hb : ∀ c ∈ b, isBlank c = true) (t : Text) : trim (a ++ t ++ b) = trim t := by
  obtain ⟨u, v, ht, hu, hv⟩ := exists_eq_trim t
  have hsplit : a ++ t ++ b = (a ++ u) ++ trim t ++ (v ++ b) := by
    conv_lhs => rw [ht]
    simp
  rw [hsplit]
  exact trim_eq_of_blank (by grind) (trimmed_trim t) (by grind)

theorem isInfix_trim (t : Text) : trim t <:+: t := by
  obtain ⟨a, b, ht, -, -⟩ := exists_eq_trim t
  exact ⟨a, b, ht.symm⟩

theorem mem_of_mem_trim {t : Text} {c : Char} (h : c ∈ trim t) : c ∈ t :=
  (isInfix_trim t).subset h

end ScopedStyles.Text
