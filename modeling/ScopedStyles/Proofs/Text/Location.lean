import Mathlib.Data.List.Basic
import Mathlib.Data.List.Induction
import ScopedStyles.Text.Location

/-!
# Locations are exact

The line of a place is told by the lines that have ended in front of it, and the column by the
characters behind the last of their ends. Every character in front of a place changes one of the
two, so no two places in a text have the same location.

## Main definitions

* `Location.Follows` — a location stands behind a text.

## Main statements

* `Location.follows_iff` — one location stands behind a text.
* `Text.locate_inj` — a location tells the offset in a text.
-/

namespace ScopedStyles

namespace Location

/-- A location stands behind a text: so many lines have ended in the text, and so many characters
stand behind the last of their ends, or behind the beginning of the text. -/
def Follows (l : Location) (t : Text) : Prop :=
  ∃ lines rest : Text, t = lines ++ rest ∧ (∀ c ∈ lines.getLast?, c = '\n') ∧ '\n' ∉ rest ∧
    l.line = lines.count '\n' + 1 ∧ l.column = rest.length + 1

theorem line_after (t : Text) : (after t).line = t.count '\n' + 1 := by
  induction t using List.reverseRecOn with
  | nil => rfl
  | append_singleton t c ih =>
    rw [after_concat, advance, List.count_append]
    split
    · next hc => simp [hc, ih]
    · next hc => simp [hc, ih]

theorem after_append_of_not_mem (a : Text) {b : Text} (hb : '\n' ∉ b) :
    after (a ++ b) = ⟨(after a).line, (after a).column + b.length⟩ := by
  induction b using List.reverseRecOn with
  | nil => simp
  | append_singleton b c ih =>
    rw [List.mem_append, List.mem_singleton, not_or] at hb
    rw [← List.append_assoc, after_concat, ih hb.1, advance, if_neg (Ne.symm hb.2)]
    simp [Nat.add_assoc]

/-- A new line starts with the first column. -/
theorem column_after_eq_one {t : Text} (h : ∀ c ∈ t.getLast?, c = '\n') : (after t).column = 1 := by
  obtain rfl | ⟨t, c, rfl⟩ := List.eq_nil_or_concat' t
  · rfl
  · obtain rfl : c = '\n' := h c (by simp)
    simp [advance]

/-- The line that a text ends in can be told from those that have ended. -/
theorem exists_lines (t : Text) :
    ∃ lines rest : Text, t = lines ++ rest ∧ (∀ c ∈ lines.getLast?, c = '\n') ∧ '\n' ∉ rest := by
  induction t using List.reverseRecOn with
  | nil => exact ⟨[], [], rfl, by simp, by simp⟩
  | append_singleton t c ih =>
    by_cases hc : c = '\n'
    · exact ⟨t ++ [c], [], by simp, by simp [hc], by simp⟩
    · obtain ⟨lines, rest, rfl, hlines, hrest⟩ := ih
      exact ⟨lines, rest ++ [c], by simp, hlines, by simp [hrest, Ne.symm hc]⟩

theorem after_lines {lines rest : Text} (hlines : ∀ c ∈ lines.getLast?, c = '\n')
    (hrest : '\n' ∉ rest) :
    after (lines ++ rest) = ⟨lines.count '\n' + 1, rest.length + 1⟩ := by
  rw [after_append_of_not_mem lines hrest, line_after, column_after_eq_one hlines, Nat.add_comm 1]

/-- One location stands behind a text, and it is the one that comes from going through the text. -/
theorem follows_iff {l : Location} {t : Text} : l.Follows t ↔ l = after t := by
  constructor
  · rintro ⟨lines, rest, rfl, hlines, hrest, hline, hcolumn⟩
    rw [after_lines hlines hrest, ← hline, ← hcolumn]
  · rintro rfl
    obtain ⟨lines, rest, rfl, hlines, hrest⟩ := exists_lines t
    rw [after_lines hlines hrest]
    exact ⟨lines, rest, rfl, hlines, hrest, rfl, rfl⟩

/-- Going through a text changes the location, unless the text is empty. -/
theorem after_append_eq_iff {a b : Text} : after (a ++ b) = after a ↔ b = [] := by
  constructor
  · intro h
    have hline : (after (a ++ b)).line = (after a).line := by rw [h]
    rw [line_after, line_after, List.count_append] at hline
    have hb : '\n' ∉ b := List.count_eq_zero.1 (by omega)
    rw [after_append_of_not_mem a hb] at h
    have hcolumn : (after a).column + b.length = (after a).column := congrArg column h
    exact List.eq_nil_of_length_eq_zero (by omega)
  · rintro rfl
    rw [List.append_nil]

end Location

namespace Text

theorem locate_eq_of_le {t : Text} {p q : Nat} (hpq : p ≤ q) (hq : q ≤ t.length) :
    t.locate q = t.locate p ↔ q = p := by
  have htake : t.take q = t.take p ++ (t.drop p).take (q - p) := by
    rw [← List.take_add, Nat.add_sub_cancel' hpq]
  rw [locate, locate, htake, Location.after_append_eq_iff, List.take_eq_nil_iff,
    List.drop_eq_nil_iff]
  omega

/-- In a text, the location tells the offset. -/
theorem locate_inj {t : Text} {p q : Nat} (hp : p ≤ t.length) (hq : q ≤ t.length) :
    t.locate p = t.locate q ↔ p = q := by
  rcases Nat.le_total p q with hpq | hpq
  · rw [eq_comm, locate_eq_of_le hpq hq, eq_comm]
  · exact locate_eq_of_le hpq hp

end Text

end ScopedStyles
