import Mathlib.Data.List.Basic
import ScopedStyles.Source.Pending

/-!
# Chunks of two sources in a row

Nothing is pending behind a delimiter. So if a source ends at a delimiter, a second one behind it is
cut into the same chunks as on its own, which stand further on by the length of the first.

## Main definitions

* `Chunk.shift` — a chunk that stands further on.
* `Source.EndsAtDelimiter` — a source whose last character ends a chunk.

## Main statements

* `Source.chunks_append`, `Source.remainder_append` — the chunks of two sources in a row, and what
  follows the last of them.
-/

namespace ScopedStyles

/-- A chunk that stands further on. -/
def Chunk.shift (n : Nat) (chunk : Chunk) : Chunk :=
  { chunk with offset := n + chunk.offset }

/-- The last character of a source is a delimiter and stands outside comments. -/
def Source.EndsAtDelimiter (source : Text) : Prop :=
  ∃ chunk ∈ chunks source, chunk.offset + 1 = source.length

instance (source : Text) : Decidable (Source.EndsAtDelimiter source) :=
  List.decidableBEx _ _

namespace Pending

theorem chunks_shift (p : Pending) (n offset : Nat) (next : Option Char) (t : Text) :
    p.chunks (n + offset) next t = (p.chunks offset next t).map (Chunk.shift n) := by
  induction t generalizing p offset with
  | nil => rfl
  | cons c t ih =>
    rw [chunks, chunks, Nat.add_assoc, ih]
    split <;> rfl

/-- A chunk ends at its delimiter, which stands outside comments. -/
theorem exists_of_mem_chunks {p : Pending} {offset : Nat} {next : Option Char} {t : Text}
    {chunk : Chunk} (h : chunk ∈ p.chunks offset next t) :
    ∃ a b, t = a ++ chunk.delimiter.char :: b ∧ chunk.offset = offset + a.length ∧
      (p.after (some chunk.delimiter.char) a).phase = .outside := by
  induction t generalizing p offset with
  | nil => cases h
  | cons c t ih =>
    have hrest : chunk ∈ (p.read c (t.head?.or next)).chunks (offset + 1) next t →
        ∃ a b, c :: t = a ++ chunk.delimiter.char :: b ∧ chunk.offset = offset + a.length ∧
          (p.after (some chunk.delimiter.char) a).phase = .outside := by
      intro h
      obtain ⟨a, b, rfl, hoffset, hphase⟩ := ih h
      refine ⟨c :: a, b, rfl, ?_, ?_⟩
      · rw [hoffset, List.length_cons]
        omega
      · simpa [after] using hphase
    rw [chunks] at h
    split at h
    · next d hd =>
      rcases List.mem_cons.1 h with rfl | h
      · obtain ⟨hphase, hc⟩ : p.phase = .outside ∧ Delimiter.ofChar? c = some d := by
          simpa [delimiter?] using hd
        exact ⟨[], t, by rw [Delimiter.ofChar?_eq_some_iff.1 hc]; rfl, rfl, hphase⟩
      · exact hrest h
    · exact hrest h

/-- What follows a delimiter makes no difference to the chunks up to it. -/
theorem chunks_concat {p : Pending} {t : Text} {c : Char} {d : Delimiter}
    (h : (p.after (some c) t).delimiter? c = some d) (offset : Nat) (next : Option Char) :
    p.chunks offset next (t ++ [c]) =
      p.chunks offset (some c) t ++ [⟨(p.after (some c) t).text, d, offset + t.length⟩] := by
  rw [chunks_append]
  simp [chunks, h]

/-- Nothing is pending once a delimiter has been read, whatever follows it. -/
theorem after_concat {p : Pending} {t : Text} {c : Char} {d : Delimiter}
    (h : (p.after (some c) t).delimiter? c = some d) (next : Option Char) :
    p.after next (t ++ [c]) = {} := by
  rw [after_append]
  exact read_of_delimiter? h _

end Pending

namespace Source

variable {s : Text}

theorem EndsAtDelimiter.exists_concat (h : EndsAtDelimiter s) :
    ∃ (t : Text) (c : Char) (d : Delimiter), s = t ++ [c] ∧
      (Pending.after {} (some c) t).delimiter? c = some d := by
  obtain ⟨chunk, hchunk, hlast⟩ := h
  obtain ⟨a, b, rfl, hoffset, hphase⟩ := Pending.exists_of_mem_chunks hchunk
  obtain rfl : b = [] := by
    rw [hoffset, List.length_append, List.length_cons] at hlast
    exact List.eq_nil_of_length_eq_zero (by omega)
  exact ⟨a, _, chunk.delimiter, rfl, Pending.delimiter?_char hphase _⟩

/-- Behind a source that is empty or ends at a delimiter, a second one is read as on its own. -/
theorem chunks_append (h : s = [] ∨ EndsAtDelimiter s) (t : Text) :
    chunks (s ++ t) = chunks s ++ (chunks t).map (Chunk.shift s.length) := by
  obtain rfl | h := h
  · have hshift : Chunk.shift 0 = id := by
      funext chunk
      simp [Chunk.shift]
    simp [hshift, chunks]
  obtain ⟨u, c, d, rfl, hd⟩ := h.exists_concat
  rw [chunks, chunks, chunks, Pending.chunks_append, Pending.chunks_concat hd,
    Pending.chunks_concat hd, Pending.after_concat hd, ← Pending.chunks_shift]
  simp only [Nat.zero_add, Nat.add_zero]

theorem remainder_append (h : s = [] ∨ EndsAtDelimiter s) (t : Text) :
    remainder (s ++ t) = remainder t := by
  obtain rfl | h := h
  · rfl
  obtain ⟨u, c, d, rfl, hd⟩ := h.exists_concat
  rw [remainder, remainder, Pending.after_append, Pending.after_concat hd]

theorem remainder_eq_nil (h : s = [] ∨ EndsAtDelimiter s) : remainder s = [] := by
  rw [← List.append_nil s, remainder_append h]
  rfl

end Source

end ScopedStyles
