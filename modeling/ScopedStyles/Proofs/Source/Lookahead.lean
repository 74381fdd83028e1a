import ScopedStyles.Proofs.Source.Concatenated
import ScopedStyles.Proofs.Text.Trim

/-!
# What follows a place in a source

A character is read with a look at the one that follows it. That tells whether the two open or close
a comment, and whether a blank is kept. So what has been read up to a place in a source depends on
what follows it, but only on the first character and only in these respects. No chunk that ends
before the place depends on it at all.

## Main definitions

* `Source.pendingAt` — what is pending at a place in a source.
* `Pending.SameAhead` — what may follow a text, and makes no difference to it.

## Main statements

* `Pending.chunks_next` — what follows a text makes no difference to its chunks.
* `Pending.SameAhead.after` — what follows makes no difference if it looks the same.
* `Pending.trim_text_after` — at the end of a piece only blanks depend on what follows.
-/

namespace ScopedStyles

/-- What is pending at a place in a source, with one text before it and another one after it. -/
def Source.pendingAt (before after : Text) : Pending :=
  .after {} after.head? before

namespace Pending

/-- What follows a text makes no difference to the chunks that end in it. -/
theorem chunks_next (p : Pending) (offset : Nat) (next next' : Option Char) (t : Text) :
    p.chunks offset next t = p.chunks offset next' t := by
  obtain rfl | ⟨t, c, rfl⟩ := List.eq_nil_or_concat' t
  · rfl
  · rw [chunks_append, chunks_append, List.head?_cons, Option.some_or, Option.some_or]
    simp only [chunks]

/-- Two characters, or the end of the source, that look the same to a character in front of them. -/
structure SameAhead (next next' : Option Char) : Prop where
  star : next = some '*' ↔ next' = some '*'
  slash : next = some '/' ↔ next' = some '/'
  near : next.any drawsNear = next'.any drawsNear

namespace SameAhead

variable {next next' : Option Char}

theorem keepsBlank (h : SameAhead next next') (p : Pending) :
    p.keepsBlank next = p.keepsBlank next' := by
  rw [Pending.keepsBlank, Pending.keepsBlank, h.near]

theorem read (h : SameAhead next next') (p : Pending) (c : Char) :
    p.read c next = p.read c next' := by
  simp only [Pending.read, h.star, h.slash, h.keepsBlank]

theorem after (h : SameAhead next next') (p : Pending) (t : Text) :
    p.after next t = p.after next' t := by
  induction t generalizing p with
  | nil => rfl
  | cons c t ih =>
    cases t with
    | nil => exact h.read p c
    | cons d t => exact ih _

end SameAhead

/-- Scanner blanks look the same to what is in front of them, namely like a space. -/
theorem sameAhead_space {c : Char} (hc : c.isWhitespace = true) :
    SameAhead (some c) (some ' ') := by
  simp only [Char.isWhitespace, Bool.or_eq_true, decide_eq_true_eq] at hc
  rcases hc with ((rfl | rfl) | rfl) | rfl <;> exact ⟨by decide, by decide, by decide⟩

/-- Outside comments, a blank is kept as a space or left out. -/
theorem read_of_isWhitespace {p : Pending} (hphase : p.phase = .outside) {c : Char}
    (hc : c.isWhitespace = true) (next : Option Char) :
    p.read c next =
      { gathered := if p.keepsBlank next then ' ' :: p.gathered else p.gathered } := by
  have hslash : c ≠ '/' := by
    rintro rfl
    cases hc
  simp [read, hphase, hc, hslash]

/-- A space that is kept at the end makes no difference once the text is trimmed. -/
theorem trim_kept (gathered : Text) (kept : Bool) :
    Text.trim (if kept then ' ' :: gathered else gathered).reverse =
      Text.trim gathered.reverse := by
  cases kept with
  | false => rfl
  | true =>
    have htrim := Text.trim_append_of_blank (a := []) (b := [' ']) (by simp)
      (List.forall_mem_singleton.2 rfl) gathered.reverse
    simpa using htrim

/-- Unless the next character opens a comment, only whether a blank is kept depends on it. -/
theorem trim_text_read (p : Pending) (c : Char) {next next' : Option Char}
    (h : next ≠ some '*') (h' : next' ≠ some '*') :
    (p.read c next).text.trim = (p.read c next').text.trim := by
  unfold read
  split
  · rfl
  · split <;> split <;> rfl
  · rfl
  · simp only [h, h', decide_false, Bool.and_false, Bool.false_eq_true, if_false]
    split
    · rw [text, text, trim_kept, trim_kept]
    · rfl

/-- At the end of a piece, only the blanks that are trimmed depend on what follows. -/
theorem trim_text_after (p : Pending) (t : Text) {next next' : Option Char}
    (h : next ≠ some '*') (h' : next' ≠ some '*') :
    (p.after next t).text.trim = (p.after next' t).text.trim := by
  induction t generalizing p with
  | nil => rfl
  | cons c t ih =>
    cases t with
    | nil => exact p.trim_text_read c h h'
    | cons d t => exact ih _

end Pending

namespace Source

/-- The chunks of a source are those that end before a place, and then those that start from what is
pending there. -/
theorem chunks_eq_append (a b : Text) :
    chunks (a ++ b) =
      chunks a ++ ((pendingAt a b).chunks 0 none b).map (Chunk.shift a.length) := by
  rw [chunks, chunks, Pending.chunks_append, Option.or_none, ← Pending.chunks_shift, Nat.zero_add,
    Nat.add_zero, Pending.chunks_next {} 0 b.head? none a]
  rfl

theorem remainder_eq_after (a b : Text) :
    remainder (a ++ b) = ((pendingAt a b).after none b).text := by
  rw [remainder, Pending.after_append, Option.or_none]
  rfl

/-- What is pending behind a text that stands behind another one. -/
theorem pendingAt_append (a b c : Text) :
    pendingAt (a ++ b) c = (pendingAt a (b ++ c)).after c.head? b := by
  rw [pendingAt, Pending.after_append, pendingAt, List.head?_append]

/-- A delimiter outside comments ends a chunk. But for blanks, the text of the chunk is what follows
the last delimiter in front of it. -/
theorem exists_chunks_concat {t : Text} {d : Delimiter}
    (h : (pendingAt t [d.char]).phase = .outside) :
    ∃ text : Text, text.trim = (remainder t).trim ∧
      chunks (t ++ [d.char]) = chunks t ++ [⟨text, d, t.length⟩] := by
  refine ⟨(pendingAt t [d.char]).text, ?_, ?_⟩
  · exact Pending.trim_text_after {} t (by cases d <;> simp [Delimiter.char]) (by simp)
  · have hchunks := Pending.chunks_concat (Pending.delimiter?_char h d) 0 none
    rwa [Pending.chunks_next {} 0 (some d.char) none t, Nat.zero_add] at hchunks

end Source

end ScopedStyles
