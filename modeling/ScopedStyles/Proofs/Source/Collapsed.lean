import Mathlib.Data.List.Chain
import ScopedStyles.Proofs.Text.Plain
import ScopedStyles.Proofs.Text.Trim
import ScopedStyles.Source.Pending

/-!
# Chunks are collapsed

What is pending never holds a delimiter, its only scanner blanks are spaces, and no two spaces stand
side by side. So this holds of every chunk of a source and of what follows the last delimiter.

## Main statements

* `Text.Collapsed` — the property of texts.
* `Pending.Settled` — the invariant, with `Pending.Settled.read` for a single character.
* `Source.collapsed_of_mem_chunks`, `Source.collapsed_remainder` — what comes of it for a source.
-/

namespace ScopedStyles

/-- A text without delimiters, in which all scanner blanks are single spaces. -/
structure Text.Collapsed (t : Text) : Prop where
  plain : t.Plain
  blanks : ∀ c ∈ t, c.isWhitespace = true → c = ' '
  spaced : t.IsChain fun a b => ¬ (a = ' ' ∧ b = ' ')

namespace Text.Collapsed

theorem of_infix {s t : Text} (h : t.Collapsed) (hs : s <:+: t) : s.Collapsed where
  plain := h.plain.of_subset hs.subset
  blanks c hc := h.blanks c (hs.subset hc)
  spaced := h.spaced.infix hs

theorem trim {t : Text} (h : t.Collapsed) : (Text.trim t).Collapsed :=
  h.of_infix (Text.isInfix_trim t)

end Text.Collapsed

namespace Pending

/-- The pending text is collapsed. -/
def Settled (p : Pending) : Prop :=
  p.text.Collapsed

theorem Settled.nil : Settled {} where
  plain := Text.plain_nil
  blanks := by simp [text]
  spaced := .nil

/-- A character that is gathered is no delimiter, and a space does not follow another one. -/
theorem Settled.gather {p : Pending} (h : p.Settled) {c : Char} (hc : Delimiter.ofChar? c = none)
    (hblank : c.isWhitespace = true → c = ' ') (hspace : c = ' ' → p.gathered.head? ≠ some ' ')
    (phase : Phase) (tight : Bool) : Settled ⟨phase, tight, c :: p.gathered⟩ := by
  have htext : text ⟨phase, tight, c :: p.gathered⟩ = p.text ++ [c] := by simp [text]
  rw [Settled, htext]
  constructor
  · exact Text.plain_append_iff.2 ⟨h.plain, Text.plain_cons_iff.2 ⟨hc, Text.plain_nil⟩⟩
  · exact List.forall_mem_append.2 ⟨h.blanks, List.forall_mem_singleton.2 hblank⟩
  · refine List.isChain_append.2 ⟨h.spaced, .singleton c, ?_⟩
    rintro a ha b hb ⟨rfl, rfl⟩
    rw [List.head?_singleton, Option.mem_some_iff] at hb
    exact hspace hb (by simpa [text] using ha)

/-- Reading a character keeps the pending text collapsed. -/
theorem Settled.read {p : Pending} (h : p.Settled) (c : Char) (next : Option Char) :
    (p.read c next).Settled := by
  unfold Pending.read
  split
  · exact h
  · split
    · exact h
    · exact h
  · exact h
  split
  · exact h
  split
  · next hblank =>
    dsimp only
    split
    · next hkeeps =>
      refine h.gather (by decide) (fun _ => rfl) (fun _ hspace => ?_) _ _
      simp [keepsBlank, hspace] at hkeeps
    · exact h
  split
  · exact .nil
  · next hblank hdelimiter =>
    have hnone : Delimiter.ofChar? c = none := by simpa using hdelimiter
    exact h.gather hnone (fun hc => absurd hc hblank) (by rintro rfl; exact absurd rfl hblank) _ _

theorem Settled.after {p : Pending} (h : p.Settled) (next : Option Char) (t : Text) :
    (p.after next t).Settled := by
  induction t generalizing p with
  | nil => exact h
  | cons c t ih => exact ih (h.read c _)

theorem Settled.collapsed_of_mem_chunks {p : Pending} (h : p.Settled) {offset : Nat}
    {next : Option Char} {t : Text} {chunk : Chunk} (hchunk : chunk ∈ p.chunks offset next t) :
    chunk.text.Collapsed := by
  induction t generalizing p offset with
  | nil => simp at hchunk
  | cons c t ih =>
    rw [chunks] at hchunk
    split at hchunk
    · rcases List.mem_cons.1 hchunk with rfl | hchunk
      · exact h
      · exact ih (h.read c _) hchunk
    · exact ih (h.read c _) hchunk

end Pending

namespace Source

theorem collapsed_of_mem_chunks {source : Text} {chunk : Chunk} (h : chunk ∈ chunks source) :
    chunk.text.Collapsed :=
  Pending.Settled.nil.collapsed_of_mem_chunks h

theorem collapsed_remainder (source : Text) : (remainder source).Collapsed :=
  Pending.Settled.nil.after none source

end Source

end ScopedStyles
