import ScopedStyles.Proofs.Source.Comment

/-!
# Outside comments

Going through a text from the beginning, one meets whole comments and characters that open none. A
place that can be reached in this way stands outside comments, and so the reading of a source finds
it. A delimiter ends a chunk in such places only.

## Main definitions

* `Text.OutsideComments` — a place in a text that stands outside comments.

## Main statements

* `Source.outside_pendingAt_iff` — the reading of a source tells whether a place is one.
* `Source.exists_of_mem_chunks` — where a chunk ends.
-/

namespace ScopedStyles

/-- A place in a text, with one part of it before and another one after it, stands outside comments:
the part before it is made up of whole comments and of characters that open none. -/
inductive Text.OutsideComments : (before after : Text) → Prop
  | start (b : Text) : OutsideComments [] b
  | char {c : Char} {a b : Text} (hc : ¬ (c = '/' ∧ (a ++ b).head? = some '*'))
      (h : OutsideComments a b) : OutsideComments (c :: a) b
  | comment {c a b : Text} (hc : c.IsComment) (h : OutsideComments a b) : OutsideComments (c ++ a) b

namespace Pending

variable {p : Pending}

/-- A character that opens no comment is read outside of one. -/
theorem outside_read {c : Char} {next : Option Char} (h : p.phase = .outside)
    (hc : ¬ (c = '/' ∧ next = some '*')) : (p.read c next).phase = .outside := by
  simp only [read, h, Bool.and_eq_true, decide_eq_true_eq, hc, if_false]
  split
  · rfl
  · split <;> rfl

theorem outside_after {a b : Text} (h : Text.OutsideComments a b) {p : Pending}
    (hp : p.phase = .outside) : (p.after b.head? a).phase = .outside := by
  induction h generalizing p with
  | start b => exact hp
  | char hc _ ih =>
    rw [List.head?_append] at hc
    exact ih (outside_read hp hc)
  | comment hc _ ih =>
    rw [after_append, after_comment hp hc]
    exact ih hp

/-- A comment that is left again has been closed. -/
theorem exists_closed {tight : Bool} {gathered a : Text} {next : Option Char}
    (h : (Pending.after ⟨.inside, tight, gathered⟩ next a).phase = .outside) :
    ∃ t rest, a = t ++ ['*', '/'] ++ rest ∧ ¬ ['*', '/'] <:+: t := by
  induction a with
  | nil => cases h
  | cons c a ih =>
    rw [after] at h
    by_cases hcloses : c = '*' ∧ a.head?.or next = some '/'
    · obtain ⟨rfl, hslash⟩ := hcloses
      cases a with
      | nil => simp [read, show next = some '/' from hslash] at h
      | cons d a =>
        obtain rfl : d = '/' := by simpa using hslash
        exact ⟨[], a, rfl, by simp⟩
    · rw [read_inside tight gathered hcloses] at h
      obtain ⟨t, rest, rfl, ht⟩ := ih h
      refine ⟨c :: t, rest, rfl, fun hmark => ?_⟩
      rcases List.infix_cons_iff.1 hmark with hmark | hmark
      · obtain ⟨u, hu⟩ := hmark
        obtain ⟨rfl, rfl⟩ : '*' = c ∧ '/' :: u = t := by simpa using hu
        exact hcloses ⟨rfl, rfl⟩
      · exact ht hmark

/-- Where the reading is outside comments, it has passed whole comments and characters that open
none. The induction is on the length, since a comment is passed as a whole. -/
theorem outsideComments_of_after {a b : Text} (hp : p.phase = .outside)
    (h : (p.after b.head? a).phase = .outside) : Text.OutsideComments a b := by
  induction hlength : a.length using Nat.strong_induction_on generalizing p a with
  | _ n ih =>
    subst hlength
    obtain _ | ⟨c, a⟩ := a
    · exact .start b
    by_cases hopens : c = '/' ∧ (a ++ b).head? = some '*'
    · obtain ⟨rfl, hstar⟩ := hopens
      obtain _ | ⟨d, a⟩ := a
      · simp [after, read, hp, show b.head? = some '*' from hstar] at h
      obtain rfl : d = '*' := by simpa using hstar
      have hinside : (Pending.after ⟨.inside, false, p.gathered⟩ b.head? a).phase = .outside := by
        simpa [after, read, hp] using h
      obtain ⟨t, rest, rfl, ht⟩ := exists_closed hinside
      have hcomment : Text.IsComment ('/' :: '*' :: (t ++ ['*', '/'])) := ⟨t, rfl, ht⟩
      have hsplit : '/' :: '*' :: (t ++ ['*', '/'] ++ rest) =
          '/' :: '*' :: (t ++ ['*', '/']) ++ rest := rfl
      rw [hsplit, after_append, after_comment hp hcomment] at h
      refine .comment hcomment (ih rest.length ?_ (p := { p with tight := false }) hp h rfl)
      simp only [List.length_cons, List.length_append]
      omega
    · have hread : (p.read c (a.head?.or b.head?)).phase = .outside :=
        outside_read hp (by rwa [List.head?_append] at hopens)
      exact .char hopens (ih a.length (by simp) hread h rfl)

end Pending

namespace Source

/-- The reading of a source tells whether a place in it stands outside comments. -/
theorem outside_pendingAt_iff {a b : Text} :
    (pendingAt a b).phase = .outside ↔ Text.OutsideComments a b :=
  ⟨Pending.outsideComments_of_after rfl, fun h => Pending.outside_after h rfl⟩

/-- A chunk of a source ends at its delimiter, which stands outside comments. -/
theorem exists_of_mem_chunks {source : Text} {chunk : Chunk} (h : chunk ∈ chunks source) :
    ∃ a b, source = a ++ chunk.delimiter.char :: b ∧ chunk.offset = a.length ∧
      Text.OutsideComments a (chunk.delimiter.char :: b) := by
  obtain ⟨a, b, hsource, hoffset, hphase⟩ := Pending.exists_of_mem_chunks h
  exact ⟨a, b, hsource, by rw [hoffset, Nat.zero_add], outside_pendingAt_iff.1 hphase⟩

end Source

end ScopedStyles
