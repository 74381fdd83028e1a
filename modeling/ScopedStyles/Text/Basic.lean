/-!
# Texts

A text is the list of its characters, so that every offset, column and length counts code points
and every definition on texts is a recursion on lists.

## Main definitions

* `Text.cutAt?` — the two sides of the first occurrence of a character.
* `Text.ofNat`, `Text.ofInt` — decimal numerals.
-/

namespace ScopedStyles

/-- A text, as the list of its characters. -/
abbrev Text := List Char

namespace Text

/-! ## Cutting -/

/-- What stands before and after the first `c`. -/
def cutAt? (c : Char) (t : Text) : Option (Text × Text) :=
  match t.dropWhile (· != c) with
  | [] => none
  | _ :: after => some (t.takeWhile (· != c), after)

/-- The two sides of a cut with the character between them are the text, and the cut is at the
first occurrence. -/
theorem cutAt?_eq_some_iff {c : Char} {t before after : Text} :
    cutAt? c t = some (before, after) ↔ t = before ++ c :: after ∧ c ∉ before := by
  constructor
  · intro h
    unfold cutAt? at h
    split at h
    · simp at h
    · next d rest hdrop =>
      obtain ⟨hbefore, rfl⟩ := Prod.mk.inj (Option.some.inj h)
      have hd : d = c := by
        have := List.head?_dropWhile_not (· != c) t
        simpa [hdrop] using this
      subst hd hbefore
      refine ⟨?_, fun hmem => ?_⟩
      · rw [← hdrop, List.takeWhile_append_dropWhile]
      · have := List.all_eq_true.1 (List.all_takeWhile (p := (· != d)) (l := t)) d hmem
        simp at this
  · rintro ⟨rfl, hc⟩
    have hne : ∀ d ∈ before, (d != c) = true := fun d hd => by
      simpa using fun h : d = c => hc (h ▸ hd)
    simp [cutAt?, List.dropWhile_append_of_pos hne, List.takeWhile_append_of_pos hne]

/-- There is no cut exactly when the character does not occur. -/
theorem cutAt?_eq_none_iff {c : Char} {t : Text} : cutAt? c t = none ↔ c ∉ t := by
  constructor
  · intro h hmem
    obtain ⟨before, after, rfl, hc⟩ := List.eq_append_cons_of_mem hmem
    simp [cutAt?_eq_some_iff.2 ⟨rfl, hc⟩] at h
  · intro h
    cases hcut : cutAt? c t with
    | none => rfl
    | some sides =>
      obtain ⟨rfl, -⟩ := cutAt?_eq_some_iff.1 hcut
      simp at h

/-! ## Numerals -/

/-- The decimal numeral of a natural number. -/
def ofNat (n : Nat) : Text :=
  Nat.toDigits 10 n

/-- The decimal numeral of an integer, with a minus sign in front of a negative one. -/
def ofInt : Int → Text
  | .ofNat n => ofNat n
  | .negSucc n => '-' :: ofNat (n + 1)

end Text

end ScopedStyles
