import ScopedStyles.Proofs.Grammar.Outcome
import ScopedStyles.Proofs.Source.Lookahead
import ScopedStyles.Proofs.Source.Tidy

/-!
# Comments

A comment is passed over, and all that it leaves behind is that the next blank does not stand behind
what stood in front of the comment. So a comment can be put into a source between two characters
that are no blanks, and wherever nothing is pending.

## Main definitions

* `Text.IsComment` — a comment with both of its marks.

## Main statements

* `Pending.after_comment`, `Pending.chunks_comment` — a comment is passed over.
* `parse_insert_comment` — where a comment makes no difference.
-/

namespace ScopedStyles

/-- A comment with both of its marks, the second of which is the first one to close it. -/
def Text.IsComment (c : Text) : Prop :=
  ∃ t : Text, c = '/' :: '*' :: (t ++ ['*', '/']) ∧ ¬ ['*', '/'] <:+: t

namespace Pending

variable {p : Pending}

/-! ## Passing over a comment -/

/-- In a comment nothing is read up to the mark that closes it. -/
theorem read_inside (tight : Bool) (gathered : Text) {c : Char} {next : Option Char}
    (h : ¬ (c = '*' ∧ next = some '/')) :
    Pending.read ⟨.inside, tight, gathered⟩ c next = ⟨.inside, tight, gathered⟩ := by
  simp [read, h]

theorem not_closes_of_isInfix {c : Char} {t : Text} (h : ¬ ['*', '/'] <:+: c :: t) (rest : Text) :
    ¬ (c = '*' ∧ (t ++ '*' :: rest).head? = some '/') := by
  rintro ⟨rfl, hhead⟩
  cases t with
  | nil => simp at hhead
  | cons d t =>
    obtain rfl : d = '/' := by simpa using hhead
    exact h ⟨[], t, rfl⟩

theorem after_inside {t : Text} (ht : ¬ ['*', '/'] <:+: t) (tight : Bool) (gathered : Text)
    (next : Option Char) :
    Pending.after ⟨.inside, tight, gathered⟩ next (t ++ ['*', '/']) =
      ⟨.outside, tight, gathered⟩ := by
  induction t with
  | nil => rfl
  | cons c t ih =>
    have hcloses := not_closes_of_isInfix ht ['/']
    have hhead : (t ++ ['*', '/']).head?.or next = (t ++ ['*', '/']).head? := by cases t <;> rfl
    rw [List.cons_append, after, hhead, read_inside _ _ hcloses]
    exact ih fun h => ht (h.trans (List.suffix_cons c t).isInfix)

theorem chunks_inside {t : Text} (ht : ¬ ['*', '/'] <:+: t) (tight : Bool) (gathered : Text)
    (offset : Nat) (next : Option Char) :
    Pending.chunks ⟨.inside, tight, gathered⟩ offset next (t ++ ['*', '/']) = [] := by
  induction t generalizing offset with
  | nil => rfl
  | cons c t ih =>
    have hcloses := not_closes_of_isInfix ht ['/']
    have hhead : (t ++ ['*', '/']).head?.or next = (t ++ ['*', '/']).head? := by cases t <;> rfl
    rw [List.cons_append, chunks, hhead, read_inside _ _ hcloses]
    exact ih (fun h => ht (h.trans (List.suffix_cons c t).isInfix)) _

/-- A comment leaves what is pending, but what has been read last is the comment. -/
theorem after_comment (hphase : p.phase = .outside) {c : Text} (hc : c.IsComment)
    (next : Option Char) : p.after next c = { p with tight := false } := by
  obtain ⟨t, rfl, ht⟩ := hc
  obtain ⟨_, tight, gathered⟩ := p
  obtain rfl := hphase
  exact after_inside ht false gathered next

/-- No chunk ends in a comment. -/
theorem chunks_comment (hphase : p.phase = .outside) {c : Text} (hc : c.IsComment)
    (offset : Nat) (next : Option Char) : p.chunks offset next c = [] := by
  obtain ⟨t, rfl, ht⟩ := hc
  obtain ⟨_, tight, gathered⟩ := p
  obtain rfl := hphase
  exact chunks_inside ht false gathered (offset + 1 + 1) next

/-! ## Around a comment -/

/-- In front of a comment the same is pending as without it, unless a blank depends on it. -/
theorem read_in_front {c : Char} {next next' : Option Char}
    (hphase : (p.read c next).phase = .outside)
    (hplace : (p.read c next).gathered = [] ∨ c.isWhitespace = false) (hnext : next' ≠ some '*') :
    p.read c next' = p.read c next := by
  obtain ⟨phase, tight, gathered⟩ := p
  cases phase with
  | opening => cases hphase
  | closing => rfl
  | inside =>
    by_cases hcloses : c = '*' ∧ next = some '/' <;> simp [read, hcloses] at hphase
  | outside =>
    have hopens : ¬ (c = '/' ∧ next = some '*') := by
      rintro ⟨rfl, rfl⟩
      cases hphase
    have hopens' : ¬ (c = '/' ∧ next' = some '*') := fun h => hnext h.2
    by_cases hblank : c.isWhitespace = true
    · rw [read_of_isWhitespace rfl hblank] at hplace ⊢
      rw [read_of_isWhitespace rfl hblank]
      have hempty : gathered = [] := by
        rcases hplace with hplace | hplace
        · split at hplace
          · cases hplace
          · exact hplace
        · simp [hblank] at hplace
      simp [keepsBlank, hempty]
    · simp [read, hopens, hopens', hblank]

/-- Behind a comment the same is read as without it, unless a blank depends on it. -/
theorem read_behind (hphase : p.phase = .outside) {c : Char}
    (hplace : p.gathered = [] ∨ c.isWhitespace = false) (tight : Bool) (next : Option Char) :
    Pending.read { p with tight } c next = p.read c next := by
  simp only [read, hphase]
  rcases hplace with hplace | hplace
  · simp [keepsBlank, hplace]
  · simp [hplace]

/-- The chunks behind a comment are those without it. -/
theorem chunks_behind (hphase : p.phase = .outside) {t : Text}
    (hplace : p.gathered = [] ∨ ∃ c ∈ t.head?, c.isWhitespace = false) (tight : Bool)
    (offset : Nat) (next : Option Char) :
    Pending.chunks { p with tight } offset next t = p.chunks offset next t := by
  cases t with
  | nil => rfl
  | cons c t =>
    have hread := read_behind hphase (c := c) (by simpa using hplace) tight
    simp only [chunks, hread]
    rfl

/-- What follows the last delimiter behind a comment is what does so without it. -/
theorem text_after_behind (hphase : p.phase = .outside) {t : Text}
    (hplace : p.gathered = [] ∨ ∃ c ∈ t.head?, c.isWhitespace = false) (tight : Bool)
    (next : Option Char) :
    (Pending.after { p with tight } next t).text = (p.after next t).text := by
  cases t with
  | nil => rfl
  | cons c t => rw [after, after, read_behind hphase (by simpa using hplace)]

end Pending

namespace Source

variable {a b c : Text}

/-- A place in a source that takes a comment: it is outside comments, and nothing is pending there
or no blank stands on either side. Where a comment is never closed, the end of the source is still
inside of it. -/
structure TakesComment (a b : Text) : Prop where
  outside : (pendingAt a b).phase = .outside
  place : (pendingAt a b).gathered = [] ∨
    (∃ x ∈ a.getLast?, x.isWhitespace = false) ∧ ∃ y ∈ b.head?, y.isWhitespace = false

/-- In front of the comment the same is pending as without it. -/
theorem TakesComment.pendingAt_comment (h : TakesComment a b) (hc : c.IsComment) :
    pendingAt a (c ++ b) = pendingAt a b := by
  obtain ⟨t, rfl, -⟩ := hc
  obtain rfl | ⟨a, x, rfl⟩ := List.eq_nil_or_concat' a
  · rfl
  · have houtside := h.outside
    have hplace := h.place
    rw [pendingAt_append] at houtside hplace ⊢
    rw [pendingAt_append]
    refine Pending.read_in_front houtside (hplace.imp_right fun hplace => ?_) (by simp)
    simpa using hplace.1

/-- Behind the comment the same is pending, and only the comment stands in front of what follows. -/
theorem TakesComment.pendingAt_behind (h : TakesComment a b) (hc : c.IsComment) :
    pendingAt (a ++ c) b = { pendingAt a b with tight := false } := by
  rw [pendingAt_append, h.pendingAt_comment hc, Pending.after_comment h.outside hc]

theorem TakesComment.chunks_eq (h : TakesComment a b) (hc : c.IsComment) :
    (chunks (a ++ c ++ b)).map (fun chunk => (chunk.text, chunk.delimiter)) =
      (chunks (a ++ b)).map fun chunk => (chunk.text, chunk.delimiter) := by
  have hsame : pendingAt a c = pendingAt a (c ++ b) := by
    obtain ⟨t, rfl, -⟩ := hc
    rfl
  have hbefore : chunks (a ++ c) = chunks a := by
    rw [chunks_eq_append, hsame, h.pendingAt_comment hc, Pending.chunks_comment h.outside hc]
    simp
  rw [chunks_eq_append, chunks_eq_append a b, h.pendingAt_behind hc,
    Pending.chunks_behind h.outside (h.place.imp_right And.right), hbefore]
  simp [Function.comp_def, Chunk.shift]

theorem TakesComment.remainder_eq (h : TakesComment a b) (hc : c.IsComment) :
    remainder (a ++ c ++ b) = remainder (a ++ b) := by
  rw [remainder_eq_after, remainder_eq_after, h.pendingAt_behind hc,
    Pending.text_after_behind h.outside (h.place.imp_right And.right)]

end Source

/-- A comment makes no difference where nothing is pending, and none between two characters that are
no blanks: the source comes to the same rule tree or to the same fault. -/
theorem parse_insert_comment {a b c : Text} (h : Source.TakesComment a b) (hc : c.IsComment)
    (scope : Text) :
    (parse scope (a ++ c ++ b)).mapError (·.fault) = (parse scope (a ++ b)).mapError (·.fault) :=
  parse_congr_of_cut (h.chunks_eq hc) (h.remainder_eq hc)

theorem parse_insert_comment_slashes :
    Source.TakesComment "p\x7bx:/".toList "/y\x7d".toList ∧ Text.IsComment "/***/".toList ∧
    (parse ['k'] "p{x://***//y}".toList).mapError (·.fault) =
      (parse ['k'] "p{x://y}".toList).mapError (·.fault) ∧
    parse ['k'] "p{x://y}".toList =
      .ok ⟨[.ruleSet ⟨".k p".toList, ⟨[(['x'], "//y".toList)]⟩⟩], ∅⟩ := by
  have hplace : Source.TakesComment "p\x7bx:/".toList "/y\x7d".toList :=
    ⟨by decide +kernel, .inr ⟨⟨'/', by decide, rfl⟩, '/', by decide, rfl⟩⟩
  have hcomment : Text.IsComment "/***/".toList := ⟨['*'], rfl, by decide⟩
  exact ⟨hplace, hcomment, parse_insert_comment hplace hcomment ['k'], by decide +kernel⟩

end ScopedStyles
