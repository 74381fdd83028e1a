import ScopedStyles.Proofs.Scanner.Cursor
import ScopedStyles.Proofs.Scanner.Tracking
import ScopedStyles.Source.Parse

/-!
# What a scanner comes to

A scanner and the reading of a source in chunks come to the same end. At each character the stacks
track a draft, and what is still ahead of the draft stays what it was.

## Main definitions

* `Draft.resume` — what a draft comes to at the end of a text.
* `Scanner.ahead` — what a draft comes to from where a scanner is.
* `Scanner.Follows` — what is ahead of a draft does not change in a step of the scanner.
* `Scanner.Safe` — what is safe about a scanner in a source.

## Main statements

* `Scanner.follows_step` — so it is in every step.
* `Scanner.run_eq` — a scanner comes to what is ahead of the draft.
* `scanner_safe` — the stacks are balanced in all states, no step crashes, and the scanner comes to
  the rule tree of the source or to its first fault.
-/

namespace ScopedStyles

namespace Draft

variable {scope : Text} (d : Draft) (p : Pending) (offset : Nat)

/-- What a draft comes to at the end of a text, whose first character stands at `offset`, where
something is pending before it. -/
def resume (scope : Text) (d : Draft) (p : Pending) (offset : Nat) (t : Text) :
    Except (Fault × Nat) RuleTree :=
  match d.readAll scope (p.chunks offset none t) with
  | .error failure => .error failure
  | .ok d => (d.finish scope (p.after none t).text).mapError fun fault => (fault, offset + t.length)

theorem resume_nil :
    d.resume scope p offset [] = (d.finish scope p.text).mapError fun fault => (fault, offset) :=
  rfl

theorem resume_cons_of_none {c : Char} (h : p.delimiter? c = none) (t : Text) :
    d.resume scope p offset (c :: t) = d.resume scope (p.read c t.head?) (offset + 1) t := by
  have hoffset : offset + (c :: t).length = offset + 1 + t.length := by
    rw [List.length_cons]
    omega
  simp only [resume, Pending.chunks, Pending.after, h, hoffset, Option.or_none]

theorem resume_cons_of_some {c : Char} {delimiter : Delimiter}
    (h : p.delimiter? c = some delimiter) (t : Text) :
    d.resume scope p offset (c :: t) =
      match d.read scope p.text delimiter with
      | .error fault => .error (fault, offset)
      | .ok d => d.resume scope {} (offset + 1) t := by
  have hoffset : offset + (c :: t).length = offset + 1 + t.length := by
    rw [List.length_cons]
    omega
  simp only [resume, Pending.chunks, Pending.after, h, hoffset, readAll,
    Pending.read_of_delimiter? h]
  cases d.read scope p.text delimiter <;> rfl

/-- A comment is passed over. -/
theorem resume_inside (tight : Bool) (gathered t : Text) :
    d.resume scope ⟨.inside, tight, gathered⟩ offset t =
      d.resume scope ⟨.outside, tight, gathered⟩ (offset + t.commentLength)
        (t.drop t.commentLength) := by
  induction t generalizing offset with
  | nil => rfl
  | cons c t ih =>
    rw [resume_cons_of_none _ _ _ rfl, Text.commentLength]
    split
    · next hclose =>
      obtain ⟨t, rfl⟩ := List.head?_eq_some_iff.1 hclose.2
      obtain rfl := hclose.1
      exact resume_cons_of_none _ _ _ rfl t
    · next hopen =>
      have hread : Pending.read ⟨.inside, tight, gathered⟩ c t.head? =
          ⟨.inside, tight, gathered⟩ := by
        simp [Pending.read, hopen]
      rw [hread, ih, List.drop_succ_cons, Nat.add_right_comm, Nat.add_assoc]

end Draft

theorem Source.tree_eq_resume (scope source : Text) :
    Source.tree scope source = Draft.resume scope {} {} 0 source := by
  rw [Source.tree, Draft.resume, Nat.zero_add]
  rfl

namespace Scanner

/-- What is pending for a scanner. -/
def pending (s : Scanner) : Pending where
  tight := isTight s.previous
  gathered := s.buffer

/-- What is ahead of a draft where a scanner is. -/
def ahead (scope source : Text) (s : Scanner) (d : Draft) : Except (Fault × Nat) RuleTree :=
  d.resume scope s.pending s.position (source.drop s.position)

/-- Where a scanner steps on, its stacks still track a draft, and the same is ahead of that. Where
it ends, so does the draft. -/
inductive Follows (scope source : Text) (s : Scanner) (d : Draft) :
    Except (Stop × Nat) Scanner → Prop
  | ok {next : Scanner} {d' : Draft} (h : next.blocks.Tracks scope d')
      (hahead : s.ahead scope source d = next.ahead scope source d') :
      Follows scope source s d (.ok next)
  | fault (fault : Fault) (hahead : s.ahead scope source d = .error (fault, s.position)) :
      Follows scope source s d (.error (.fault fault, s.position))

variable {scope source : Text} {s : Scanner} {d : Draft}

theorem keepsBlank_pending (next : Option Char) :
    s.pending.keepsBlank next = !s.isRedundant next := by
  unfold Pending.keepsBlank isRedundant pending
  cases s.buffer.head? <;> simp [Bool.and_comm]

theorem pending_of_tight {blocks : Stacks} {position : Nat} {c : Char} {buffer : Text}
    (h : isTight (some c) = true) :
    pending ⟨blocks, position, some c, buffer⟩ = { gathered := buffer } := by
  rw [pending, h]

theorem isTight_of_ofChar?_eq_some {c : Char} {delimiter : Delimiter}
    (h : Delimiter.ofChar? c = some delimiter) : isTight (some c) = true := by
  obtain rfl := Delimiter.ofChar?_eq_some_iff.1 h
  cases delimiter <;> rfl

theorem isTight_of_ofChar?_eq_none {c : Char} (h : Delimiter.ofChar? c = none)
    (hblank : ¬c.isWhitespace = true) : isTight (some c) = decide (c = ':') := by
  obtain ⟨hsemicolon, hopen, hclose⟩ := Delimiter.ofChar?_eq_none_iff.1 h
  simp [isTight, hsemicolon, hopen, hclose, hblank]

/-- Scanner blanks are gathered or left out as in the reading in chunks. -/
theorem read_pending_of_isWhitespace {c : Char} (hblank : c.isWhitespace = true)
    (next : Option Char) :
    s.pending.read c next =
      { gathered := if s.isRedundant next then s.buffer else ' ' :: s.buffer } := by
  have hslash : c ≠ '/' := by
    rintro rfl
    cases hblank
  have hkeeps := keepsBlank_pending (s := s) next
  unfold pending at hkeeps
  simp only [Pending.read, pending, hslash, hblank, hkeeps]
  cases s.isRedundant next <;> rfl

theorem read_pending_of_ofChar?_eq_none {c : Char} {next : Option Char}
    (hcomment : ¬(c = '/' ∧ next = some '*')) (hblank : ¬c.isWhitespace = true)
    (hnone : Delimiter.ofChar? c = none) :
    s.pending.read c next = { tight := c = ':', gathered := c :: s.buffer } := by
  have hopens : (c = '/' && next = some '*') = false := by simpa using hcomment
  simp [Pending.read, pending, hopens, hblank, hnone]

/-- What follows the character under the cursor is ahead behind it. -/
theorem drop_succ_position {c : Char} {rest : Text} (h : source.drop s.position = c :: rest) :
    source.drop (s.position + 1) = rest := by
  rw [← List.drop_drop, h, List.drop_succ_cons, List.drop_zero]

/-- Where nothing ends, the same is ahead of the draft after the next character. -/
theorem ahead_other {c : Char} {rest : Text} (hrest : source.drop s.position = c :: rest)
    (hnone : Delimiter.ofChar? c = none) {next : Scanner}
    (hposition : next.position = s.position + 1)
    (hpending : s.pending.read c rest.head? = next.pending) :
    s.ahead scope source d = next.ahead scope source d := by
  have hdelimiter : s.pending.delimiter? c = none := hnone
  rw [ahead, hrest, Draft.resume_cons_of_none _ _ _ hdelimiter, hpending, ahead, hposition,
    drop_succ_position hrest]

/-- Where a comment stands, the same is ahead of the draft after it. -/
theorem ahead_comment {rest : Text} (hrest : source.drop s.position = '/' :: '*' :: rest) :
    s.ahead scope source d =
      ahead scope source
        { s with
          position := s.position + 2 + Text.commentLength rest
          previous := some '/' } d := by
  have hread : (s.pending.read '/' (some '*')).read '*' rest.head? =
      ⟨.inside, false, s.buffer⟩ := rfl
  have hdrop : source.drop (s.position + 2) = rest := by
    rw [← List.drop_drop, hrest]
    rfl
  rw [ahead, hrest, Draft.resume_cons_of_none _ _ _ rfl, Draft.resume_cons_of_none _ _ _ rfl,
    List.head?_cons, hread, Draft.resume_inside, ahead, ← List.drop_drop, hdrop]
  rfl

/-- At a delimiter the draft reads what is pending. -/
theorem ahead_delimiter {c : Char} {rest : Text} (hrest : source.drop s.position = c :: rest)
    {delimiter : Delimiter} (hsome : Delimiter.ofChar? c = some delimiter) :
    s.ahead scope source d =
      match d.read scope s.buffer.reverse delimiter with
      | .error fault => .error (fault, s.position)
      | .ok d => d.resume scope {} (s.position + 1) rest := by
  have hdelimiter : s.pending.delimiter? c = some delimiter := hsome
  rw [ahead, hrest, Draft.resume_cons_of_some _ _ _ hdelimiter]
  rfl

/-- What is ahead of a draft is kept in every step. -/
theorem follows_step (h : s.blocks.Tracks scope d) (hb : s.blocks.Balanced scope) {c : Char}
    {rest : Text} (hrest : source.drop s.position = c :: rest) :
    Follows scope source s d (s.step scope c rest) := by
  unfold step
  split
  · next hcomment =>
    obtain ⟨rest, rfl⟩ := List.head?_eq_some_iff.1 hcomment.2
    obtain rfl := hcomment.1
    exact .ok h (ahead_comment hrest)
  split
  · next hblank =>
    have htight : isTight (some c) = true := by simp [isTight, hblank]
    refine .ok h (ahead_other hrest (Delimiter.ofChar?_of_isWhitespace hblank) rfl ?_)
    rw [read_pending_of_isWhitespace hblank, pending_of_tight htight]
  split
  · next hcomment hblank _ hnone =>
    refine .ok h (ahead_other hrest hnone rfl ?_)
    rw [read_pending_of_ofChar?_eq_none hcomment hblank hnone, pending,
      isTight_of_ofChar?_eq_none hnone hblank]
  · next delimiter hsome =>
    have hagrees := h.read hb s.buffer.reverse delimiter
    have hahead := @ahead_delimiter scope source s d c rest hrest delimiter hsome
    generalize s.blocks.read scope s.buffer.reverse delimiter = result at hagrees
    generalize d.read scope s.buffer.reverse delimiter = result' at hagrees hahead
    cases hagrees with
    | fault fault => exact .fault fault hahead
    | ok hnext =>
      refine .ok hnext (hahead.trans ?_)
      rw [ahead, drop_succ_position hrest, pending_of_tight (isTight_of_ofChar?_eq_some hsome)]

/-- What a scanner comes to is what is ahead of the draft. -/
theorem run_eq (h : s.blocks.Tracks scope d) (hb : s.blocks.Balanced scope) :
    s.run scope source =
      (s.ahead scope source d).mapError fun failure => (.fault failure.1, failure.2) := by
  fun_induction run scope source s generalizing d with
  | case1 s hrest =>
    rw [finish, h.finish hb, ahead, hrest, Draft.resume_nil, pending, Pending.text]
    cases d.finish scope s.buffer.reverse <;> rfl
  | case2 s c rest hrest failure hstep =>
    have hfollows := follows_step h hb hrest
    rw [hstep] at hfollows
    cases hfollows with
    | fault fault hahead =>
      rw [hahead]
      rfl
  | case3 s c rest hrest next hstep ih =>
    have hfollows := follows_step h hb hrest
    have hbalanced := balanced_of_step hb hstep
    rw [hstep] at hfollows
    cases hfollows with
    | ok hnext hahead => rw [hahead, ih hnext hbalanced]

theorem run_start_eq (scope source : Text) :
    run scope source (start scope) =
      (parse scope source).mapError fun e => (.fault e.fault, e.offset) := by
  have hahead : ahead scope source (start scope) {} = Source.tree scope source :=
    (Source.tree_eq_resume scope source).symm
  rw [run_eq (Stacks.tracks_start scope) (Stacks.balanced_start scope), hahead, parse]
  cases Source.tree scope source <;> rfl

/-- A scanner that finds no fault in front of the end of the source comes to the end. -/
theorem Reachable.exists_finish (h : Reachable scope source s)
    (hrun : ∀ stop p, s.run scope source = .error (stop, p) → source.length ≤ p) :
    ∃ last, Reachable scope source last ∧ last.position = source.length ∧
      last.finish scope = s.run scope source := by
  fun_induction run scope source s with
  | case1 s hrest =>
    exact ⟨s, h, Nat.le_antisymm h.position_le (List.drop_eq_nil_iff.1 hrest), rfl⟩
  | case2 s c rest hrest failure hstep =>
    have hlength := congrArg List.length hrest
    rw [List.length_drop, List.length_cons] at hlength
    -- A step that fails does so where it is made, which is in front of the end.
    rcases step_of_balanced h.balanced c rest with ⟨next, hnext, -⟩ | ⟨fault, hfault⟩
    · cases hstep.symm.trans hnext
    · obtain rfl := Except.error.inj (hstep.symm.trans hfault)
      have hposition := hrun _ _ rfl
      omega
  | case3 s c rest hrest next hstep ih => exact ih (h.step hrest hstep) hrun

/-- What is safe about a scanner in a source. Its stacks are balanced and its cursor is in the
source. It takes nothing from an empty stack and looks up no unknown name, but moves its cursor on
or finds a fault where that stands. -/
structure Safe (scope source : Text) (s : Scanner) : Prop where
  balanced : s.blocks.Balanced scope
  position : s.position ≤ source.length
  step (c : Char) (rest : Text) (hrest : source.drop s.position = c :: rest) :
    (∃ next, s.step scope c rest = .ok next ∧ s.position < next.position) ∨
      ∃ fault, s.step scope c rest = .error (.fault fault, s.position)
  finish (hrest : source.drop s.position = []) :
    (∃ tree, s.finish scope = .ok tree) ∨
      ∃ fault, s.finish scope = .error (.fault fault, s.position)

theorem Reachable.safe (h : Reachable scope source s) : s.Safe scope source where
  balanced := h.balanced
  position := h.position_le
  step c rest _ := by
    rcases step_of_balanced h.balanced c rest with ⟨next, hnext, -⟩ | hfault
    · exact .inl ⟨next, hnext, (position_of_step hnext).1⟩
    · exact .inr hfault
  finish _ := finish_of_balanced h.balanced

end Scanner

/-- A scanner is safe in all the states that it goes through in a source. It comes to the rule tree
of the source or to the first fault in it, and never crashes. When it finds the rule tree, it has
come to the end. -/
theorem scanner_safe (scope source : Text) :
    (∀ s, Scanner.Reachable scope source s → s.Safe scope source) ∧
      Scanner.run scope source (.start scope) =
        (parse scope source).mapError (fun e => (.fault e.fault, e.offset)) ∧
      ∀ tree, parse scope source = .ok tree →
        ∃ s, Scanner.Reachable scope source s ∧ s.position = source.length ∧
          s.finish scope = .ok tree := by
  refine ⟨fun s hs => hs.safe, Scanner.run_start_eq scope source, fun tree htree => ?_⟩
  have hrun : Scanner.run scope source (.start scope) = .ok tree := by
    rw [Scanner.run_start_eq, htree]
    rfl
  rw [← hrun]
  exact Scanner.Reachable.start.exists_finish fun stop p herror => by cases hrun.symm.trans herror

end ScopedStyles
