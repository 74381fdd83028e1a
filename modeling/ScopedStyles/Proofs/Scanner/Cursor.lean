import ScopedStyles.Proofs.Scanner.Balanced
import ScopedStyles.Source.Pending

/-!
# The scanner

A scanner moves a cursor over a source. It looks at one character and the one after it, gathers text
in a buffer, jumps over comments, and at each delimiter hands the buffer to its stacks.

## Main definitions

* `Scanner.step` — the scanner after the character under its cursor.
* `Scanner.run` — what the scanner comes to.
* `Scanner.Reachable` — the states that it goes through.

## Main statements

* `Scanner.position_of_step` — the cursor moves on, but not beyond the source.
* `Scanner.Reachable.balanced`, `Scanner.Reachable.position_le` — what holds in all states.
-/

namespace ScopedStyles

/-- How far the end of a comment is from behind its opening. A comment that is never closed reaches
to the end. -/
def Text.commentLength : Text → Nat
  | [] => 0
  | c :: rest => if c = '*' ∧ rest.head? = some '/' then 2 else commentLength rest + 1

theorem Text.commentLength_le (t : Text) : t.commentLength ≤ t.length := by
  induction t with
  | nil => exact Nat.le_refl 0
  | cons c rest ih =>
    rw [commentLength]
    split
    · next h =>
      obtain ⟨rest, rfl⟩ := List.head?_eq_some_iff.1 h.2
      simp
    · exact Nat.succ_le_succ ih

/-- A scanner in the middle of a source. -/
structure Scanner where
  blocks : Stacks
  position : Nat := 0
  /-- The character that was dealt with last. -/
  previous : Option Char := none
  /-- What has been gathered since the last delimiter, the latest character first. -/
  buffer : Text := []

namespace Scanner

/-- The scanner before it has read anything. -/
def start (scope : Text) : Scanner where
  blocks := .start scope

/-- Whether a space makes no difference after a character, or at the beginning. -/
def isTight : Option Char → Bool
  | none => true
  | some c => c = '{' || c = '}' || c = ';' || c = ':' || c.isWhitespace

/-- Whether a blank before `next` makes no difference. -/
def isRedundant (s : Scanner) (next : Option Char) : Bool :=
  s.buffer.head?.all (· = ' ') || isTight s.previous || next.any Pending.drawsNear

section

variable (scope : Text)

/-- The scanner after the character under its cursor, which `rest` follows. -/
def step (s : Scanner) (c : Char) (rest : Text) : Except (Stop × Nat) Scanner :=
  if c = '/' ∧ rest.head? = some '*' then
    .ok { s with position := s.position + 2 + Text.commentLength rest.tail, previous := some c }
  else if c.isWhitespace then
    .ok { s with
      position := s.position + 1
      previous := some c
      buffer := if s.isRedundant rest.head? then s.buffer else ' ' :: s.buffer }
  else
    match Delimiter.ofChar? c with
    | none =>
      .ok { s with position := s.position + 1, previous := some c, buffer := c :: s.buffer }
    | some delimiter =>
      match s.blocks.read scope s.buffer.reverse delimiter with
      | .error stop => .error (stop, s.position)
      | .ok blocks => .ok ⟨blocks, s.position + 1, some c, []⟩

/-- What the scanner comes to at the end of the source. -/
def finish (s : Scanner) : Except (Stop × Nat) RuleTree :=
  (s.blocks.finish scope s.buffer.reverse).mapError fun stop => (stop, s.position)

variable {scope}

/-- The cursor moves on, but not beyond the source. -/
theorem position_of_step {s next : Scanner} {c : Char} {rest : Text}
    (h : s.step scope c rest = .ok next) :
    s.position < next.position ∧ next.position ≤ s.position + (c :: rest).length := by
  unfold step at h
  split at h
  · next hcomment =>
    obtain ⟨rest, rfl⟩ := List.head?_eq_some_iff.1 hcomment.2
    cases h
    have hlength := Text.commentLength_le rest
    simp only [List.tail_cons, List.length_cons]
    omega
  split at h
  · cases h
    simp
  split at h
  · cases h
    simp
  split at h
  · cases h
  · cases h
    simp

variable (scope)

/-- What a scanner comes to in a source. -/
def run (source : Text) (s : Scanner) : Except (Stop × Nat) RuleTree :=
  match _ : source.drop s.position with
  | [] => s.finish scope
  | c :: rest =>
    match _ : s.step scope c rest with
    | .error failure => .error failure
    | .ok next => run source next
termination_by source.length - s.position
decreasing_by
  rename_i hrest hstep
  have hlength := congrArg List.length hrest
  have hposition := position_of_step hstep
  rw [List.length_drop, List.length_cons] at hlength
  omega

/-- The states that a scanner goes through in a source. -/
inductive Reachable (source : Text) : Scanner → Prop
  | start : Reachable source (start scope)
  | step {s next : Scanner} {c : Char} {rest : Text} (h : Reachable source s)
      (hrest : source.drop s.position = c :: rest) (hstep : s.step scope c rest = .ok next) :
      Reachable source next

end

variable {scope source : Text} {s : Scanner}

theorem Reachable.position_le (h : Reachable scope source s) : s.position ≤ source.length := by
  induction h with
  | start => exact Nat.zero_le _
  | step _ hrest hstep _ =>
    have hlength := congrArg List.length hrest
    have hposition := (position_of_step hstep).2
    rw [List.length_drop] at hlength
    omega

/-- A step comes to balanced stacks, or to a fault. -/
theorem step_of_balanced (h : s.blocks.Balanced scope) (c : Char) (rest : Text) :
    (∃ next, s.step scope c rest = .ok next ∧ next.blocks.Balanced scope) ∨
      ∃ fault, s.step scope c rest = .error (.fault fault, s.position) := by
  unfold step
  split
  · exact .inl ⟨_, rfl, h⟩
  split
  · exact .inl ⟨_, rfl, h⟩
  split
  · exact .inl ⟨_, rfl, h⟩
  · next delimiter _ =>
    have hsound := h.read s.buffer.reverse delimiter
    generalize s.blocks.read scope s.buffer.reverse delimiter = result at hsound
    cases hsound with
    | ok hnext => exact .inl ⟨_, rfl, hnext⟩
    | fault fault => exact .inr ⟨fault, rfl⟩

theorem balanced_of_step (h : s.blocks.Balanced scope) {next : Scanner} {c : Char} {rest : Text}
    (hstep : s.step scope c rest = .ok next) : next.blocks.Balanced scope := by
  rcases step_of_balanced h c rest with ⟨next, hnext, hbalanced⟩ | ⟨fault, hfault⟩
  · cases hstep.symm.trans hnext
    exact hbalanced
  · cases hstep.symm.trans hfault

theorem Reachable.balanced (h : Reachable scope source s) : s.blocks.Balanced scope := by
  induction h with
  | start => exact Stacks.balanced_start scope
  | step _ _ hstep ih => exact balanced_of_step ih hstep

/-- The scanner finds a rule tree at the end, or a fault. -/
theorem finish_of_balanced (h : s.blocks.Balanced scope) :
    (∃ tree, s.finish scope = .ok tree) ∨
      ∃ fault, s.finish scope = .error (.fault fault, s.position) := by
  unfold finish
  rcases h.finish s.buffer.reverse with ⟨tree, htree⟩ | ⟨fault, hfault⟩
  · exact .inl ⟨tree, by rw [htree]; rfl⟩
  · exact .inr ⟨fault, by rw [hfault]; rfl⟩

end Scanner

end ScopedStyles
