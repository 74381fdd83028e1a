import ScopedStyles.Proofs.Scanner.Run
import ScopedStyles.Proofs.Source.Outside

/-!
# Where a scanner comes by

A scanner passes a comment in one step, and every other character in a step of its own. So the
places that it comes by are those outside comments, up to the first fault, and the end of the
source, even if a comment is never closed. What it has gathered there is what is pending there.

## Main statements

* `Scanner.Reachable.pending_eq` — what has been gathered at a place.
* `Scanner.exists_reachable_iff` — which places a scanner comes by.
* `Scanner.Reachable.takesComment_iff`, `Source.takesComment_iff_exists_reachable` — which of them
  take a comment.
-/

namespace ScopedStyles

/-! ## Passing a comment -/

/-- The length of a comment is measured up to the first mark that closes it. -/
theorem Text.commentLength_append {t : Text} (ht : ¬ ['*', '/'] <:+: t) (rest : Text) :
    Text.commentLength (t ++ '*' :: '/' :: rest) = t.length + 2 := by
  induction t with
  | nil => rfl
  | cons c t ih =>
    have hcloses := Pending.not_closes_of_isInfix ht ('/' :: rest)
    have hinfix : ¬ ['*', '/'] <:+: t := fun h => ht (h.trans (List.suffix_cons c t).isInfix)
    rw [List.cons_append, commentLength, if_neg hcloses, ih hinfix, List.length_cons]

/-- Behind a comment the reading is outside again, unless the comment is never closed. -/
theorem Pending.exists_passed (tight : Bool) (gathered t : Text) :
    ∃ passed rest : Text, t = passed ++ rest ∧ passed.length = Text.commentLength t ∧
      (Pending.after ⟨.inside, tight, gathered⟩ rest.head? passed = ⟨.outside, tight, gathered⟩ ∨
        rest = [] ∧
          Pending.after ⟨.inside, tight, gathered⟩ rest.head? passed =
            ⟨.inside, tight, gathered⟩) := by
  induction t with
  | nil => exact ⟨[], [], rfl, rfl, .inr ⟨rfl, rfl⟩⟩
  | cons c t ih =>
    rw [Text.commentLength]
    split
    · next hcloses =>
      obtain ⟨t, rfl⟩ := List.head?_eq_some_iff.1 hcloses.2
      obtain rfl := hcloses.1
      exact ⟨['*', '/'], t, rfl, rfl, .inl rfl⟩
    · next hcloses =>
      obtain ⟨passed, rest, rfl, hlength, hafter⟩ := ih
      refine ⟨c :: passed, rest, rfl, by simp [hlength], ?_⟩
      rw [List.head?_append] at hcloses
      rw [after, read_inside _ _ hcloses]
      exact hafter

namespace Scanner

variable {scope source a b : Text} {s next : Scanner}

theorem step_comment (s : Scanner) (rest : Text) :
    s.step scope '/' ('*' :: rest) =
      .ok { s with
        position := s.position + 2 + Text.commentLength rest
        previous := some '/' } := by
  simp [step]

/-- Any other character is read as in the reading in chunks. -/
theorem pending_of_step {c : Char} {rest : Text} (hopens : ¬ (c = '/' ∧ rest.head? = some '*'))
    (hstep : s.step scope c rest = .ok next) :
    next.position = s.position + 1 ∧ next.pending = s.pending.read c rest.head? := by
  rw [step, if_neg hopens] at hstep
  split at hstep
  · next hblank =>
    cases hstep
    have htight : isTight (some c) = true := by simp [isTight, hblank]
    exact ⟨rfl, by rw [read_pending_of_isWhitespace hblank, pending_of_tight htight]⟩
  · next hblank =>
    split at hstep
    · next hnone =>
      cases hstep
      refine ⟨rfl, ?_⟩
      rw [read_pending_of_ofChar?_eq_none hopens hblank hnone, pending,
        isTight_of_ofChar?_eq_none hnone hblank]
    · next delimiter hsome =>
      split at hstep
      · cases hstep
      · cases hstep
        have hdelimiter : s.pending.delimiter? c = some delimiter := hsome
        refine ⟨rfl, ?_⟩
        rw [Pending.read_of_delimiter? hdelimiter,
          pending_of_tight (isTight_of_ofChar?_eq_some hsome)]

/-! ## What has been gathered at a place -/

/-- A step leads from one place to another. What has been gathered stays what is pending, unless a
comment that is never closed has led to the end. -/
theorem exists_place_of_step {c : Char} {rest : Text}
    (hpending : s.pending = Source.pendingAt a (c :: rest))
    (hstep : s.step scope c rest = .ok next) :
    ∃ t b : Text, c :: rest = t ++ b ∧ next.position = s.position + t.length ∧
      (next.pending = Source.pendingAt (a ++ t) b ∨
        b = [] ∧ ¬ Text.OutsideComments (a ++ t) b) := by
  by_cases hopens : c = '/' ∧ rest.head? = some '*'
  · obtain ⟨rfl, hstar⟩ := hopens
    obtain ⟨rest, rfl⟩ := List.head?_eq_some_iff.1 hstar
    rw [step_comment] at hstep
    cases hstep
    obtain ⟨passed, b, hsplit, hlength, hafter⟩ := Pending.exists_passed false s.buffer rest
    have hplace : Source.pendingAt (a ++ '/' :: '*' :: passed) b =
        Pending.after ⟨.inside, false, s.buffer⟩ b.head? passed := by
      rw [Source.pendingAt_append, List.cons_append, List.cons_append, ← hsplit, ← hpending]
      rfl
    refine ⟨'/' :: '*' :: passed, b, by simp [hsplit], ?_, ?_⟩
    · simp only [List.length_cons, hlength]
      omega
    · rw [← Source.outside_pendingAt_iff, hplace]
      rcases hafter with hclosed | ⟨hnil, hinside⟩
      · exact .inl hclosed.symm
      · exact .inr ⟨hnil, by rw [hinside]; nofun⟩
  · obtain ⟨hposition, hread⟩ := pending_of_step hopens hstep
    refine ⟨[c], rest, rfl, hposition, .inl ?_⟩
    rw [hread, hpending, Source.pendingAt_append]
    rfl

theorem Reachable.exists_place (h : Reachable scope source s) :
    ∃ a b : Text, source = a ++ b ∧ s.position = a.length ∧
      (s.pending = Source.pendingAt a b ∨ b = [] ∧ ¬ Text.OutsideComments a b) := by
  induction h with
  | start => exact ⟨[], source, rfl, rfl, .inl rfl⟩
  | @step s next c rest _ hrest hstep ih =>
    obtain ⟨a, b, rfl, hposition, hplace⟩ := ih
    obtain rfl : b = c :: rest := by rwa [hposition, List.drop_left] at hrest
    rcases hplace with hpending | ⟨hnil, -⟩
    · obtain ⟨t, b, hsplit, hnext, hplace⟩ := exists_place_of_step hpending hstep
      exact ⟨a ++ t, b, by simp [hsplit], by simp [hnext, hposition], hplace⟩
    · cases hnil

/-- What a scanner has gathered at a place is what is pending there. At the end of the source this
need not be so if a comment is never closed. -/
theorem Reachable.pending_eq (h : Reachable scope (a ++ b) s) (hposition : s.position = a.length) :
    s.pending = Source.pendingAt a b ∨ b = [] ∧ ¬ Text.OutsideComments a b := by
  obtain ⟨a', b', hsource, hposition', hplace⟩ := h.exists_place
  obtain ⟨rfl, rfl⟩ := List.append_inj hsource (hposition.symm.trans hposition')
  exact hplace

theorem Reachable.outsideComments (h : Reachable scope (a ++ b) s)
    (hposition : s.position = a.length) : Text.OutsideComments a b ∨ b = [] := by
  refine (h.pending_eq hposition).imp (fun hpending => ?_) And.left
  rw [← Source.outside_pendingAt_iff, ← hpending]
  rfl

/-! ## Coming by a place -/

theorem run_of_drop_eq_cons {c : Char} {rest : Text} (hrest : source.drop s.position = c :: rest) :
    s.run scope source = (s.step scope c rest).bind (run scope source) := by
  rw [run]
  split
  · next hnil => cases hrest.symm.trans hnil
  · next c' rest' hrest' =>
    obtain ⟨rfl, rfl⟩ := List.cons.inj (hrest.symm.trans hrest')
    split
    · next failure hfailure =>
      rw [hfailure]
      rfl
    · next next hnext =>
      rw [hnext]
      rfl

/-- A scanner comes to the same from all the states that it goes through. -/
theorem Reachable.run_eq (h : Reachable scope source s) :
    s.run scope source = (parse scope source).mapError fun e => (.fault e.fault, e.offset) := by
  induction h with
  | start => exact run_start_eq scope source
  | step _ hrest hstep ih =>
    rw [← ih, run_of_drop_eq_cons hrest, hstep]
    rfl

/-- Where a scanner crashes or finds a fault, the source has its first fault. -/
theorem Reachable.exists_error (h : Reachable scope source s) {stop : Stop} {p : Nat}
    (hrun : s.run scope source = .error (stop, p)) :
    ∃ e, parse scope source = .error e ∧ e.offset = p := by
  rw [h.run_eq] at hrun
  cases hparse : parse scope source with
  | ok tree =>
    rw [hparse] at hrun
    cases hrun
  | error e =>
    rw [hparse] at hrun
    exact ⟨e, rfl, congrArg Prod.snd (Except.error.inj hrun)⟩

/-- A fault is not found before its place. -/
theorem position_le_of_run (h : s.blocks.Balanced scope) {stop : Stop} {p : Nat}
    (hrun : s.run scope source = .error (stop, p)) : s.position ≤ p := by
  fun_induction run scope source s with
  | case1 s hrest =>
    rcases finish_of_balanced h with ⟨tree, htree⟩ | ⟨fault, hfault⟩
    · cases htree.symm.trans hrun
    · cases hfault.symm.trans hrun
      exact Nat.le_refl _
  | case2 s c rest hrest failure hstep =>
    obtain rfl := Except.error.inj hrun
    rcases step_of_balanced h c rest with ⟨next, hnext, -⟩ | ⟨fault, hfault⟩
    · cases hstep.symm.trans hnext
    · cases hstep.symm.trans hfault
      exact Nat.le_refl _
  | case3 s c rest hrest next hstep ih =>
    exact (position_of_step hstep).1.le.trans (ih (balanced_of_step h hstep) hrun)

theorem Reachable.position_le_of_parse (h : Reachable scope source s) {e : ParseError}
    (hparse : parse scope source = .error e) : s.position ≤ e.offset := by
  have hrun := h.run_eq
  rw [hparse] at hrun
  exact position_le_of_run h.balanced hrun

/-- In front of the first fault, a scanner steps on. -/
theorem Reachable.exists_step (h : Reachable scope source s) {c : Char} {rest : Text}
    (hrest : source.drop s.position = c :: rest)
    (hfault : ∀ e, parse scope source = .error e → s.position < e.offset) :
    ∃ next, s.step scope c rest = .ok next := by
  rcases step_of_balanced h.balanced c rest with ⟨next, hnext, -⟩ | ⟨fault, herror⟩
  · exact ⟨next, hnext⟩
  · have hrun : s.run scope source = .error (.fault fault, s.position) := by
      rw [run_of_drop_eq_cons hrest, herror]
      rfl
    obtain ⟨e, hparse, hoffset⟩ := h.exists_error hrun
    exact absurd (hfault e hparse) (hoffset ▸ Nat.lt_irrefl _)

/-- A scanner comes by all places outside comments up to the first fault. -/
theorem exists_reachable_of_outside (houtside : Text.OutsideComments a b) {front : Text}
    (hsource : source = front ++ (a ++ b)) (hs : Reachable scope source s)
    (hposition : s.position = front.length)
    (hfault : ∀ e, parse scope source = .error e → (front ++ a).length ≤ e.offset) :
    ∃ last, Reachable scope source last ∧ last.position = (front ++ a).length := by
  induction houtside generalizing front s with
  | start b => exact ⟨s, hs, by simp [hposition]⟩
  | @char c a b hc _ ih =>
    have hrest : source.drop s.position = c :: (a ++ b) := by
      rw [hsource, hposition, List.drop_left]
      rfl
    have hsplit : front ++ c :: a = front ++ [c] ++ a := List.append_cons front c a
    rw [hsplit] at hfault ⊢
    obtain ⟨next, hnext⟩ := hs.exists_step hrest fun e he => by
      have hle := hfault e he
      simp only [List.length_append, List.length_singleton] at hle
      omega
    have hposition' := (pending_of_step hc hnext).1
    exact ih (by simp [hsource]) (hs.step hrest hnext) (by simp [hposition', hposition]) hfault
  | @comment c a b hc _ ih =>
    obtain ⟨t, rfl, ht⟩ := hc
    have hrest : source.drop s.position = '/' :: '*' :: (t ++ '*' :: '/' :: (a ++ b)) := by
      rw [hsource, hposition, List.drop_left]
      simp
    rw [← List.append_assoc] at hfault ⊢
    refine ih (by simp [hsource]) (hs.step hrest (step_comment s _)) ?_ hfault
    simp only [Text.commentLength_append ht, hposition, List.length_append, List.length_cons,
      List.length_nil]
    omega

/-- A scanner comes by exactly those places that stand outside comments and not behind the first
fault, and by the end of the source if no fault is in front of it. -/
theorem exists_reachable_iff :
    (∃ s, Reachable scope (a ++ b) s ∧ s.position = a.length) ↔
      (∀ e, parse scope (a ++ b) = .error e → a.length ≤ e.offset) ∧
        (Text.OutsideComments a b ∨ b = []) := by
  constructor
  · rintro ⟨s, hs, hposition⟩
    refine ⟨fun e he => ?_, hs.outsideComments hposition⟩
    rw [← hposition]
    exact hs.position_le_of_parse he
  · rintro ⟨hfault, houtside | rfl⟩
    · have hsource : a ++ b = [] ++ (a ++ b) := rfl
      exact exists_reachable_of_outside houtside hsource .start rfl hfault
    · rw [List.append_nil] at hfault ⊢
      obtain ⟨last, hlast, hposition, -⟩ := Reachable.start.exists_finish fun stop p hrun => by
        obtain ⟨e, hparse, rfl⟩ := Reachable.start.exists_error hrun
        exact hfault e hparse
      exact ⟨last, hlast, hposition⟩

/-! ## Places that take a comment -/

/-- A place that a scanner comes by takes a comment if nothing has been gathered there, or if no
blank stands on either side, except where a comment is never closed. -/
theorem Reachable.takesComment_iff (h : Reachable scope (a ++ b) s)
    (hposition : s.position = a.length) :
    Source.TakesComment a b ↔
      Text.OutsideComments a b ∧ (s.buffer = [] ∨
        (∃ x ∈ a.getLast?, x.isWhitespace = false) ∧ ∃ y ∈ b.head?, y.isWhitespace = false) := by
  have hgathered (houtside : Text.OutsideComments a b) :
      (Source.pendingAt a b).gathered = s.buffer := by
    rcases h.pending_eq hposition with hpending | ⟨-, hnot⟩
    · rw [← hpending]
      rfl
    · exact absurd houtside hnot
  constructor
  · intro htakes
    have houtside := Source.outside_pendingAt_iff.1 htakes.outside
    exact ⟨houtside, hgathered houtside ▸ htakes.place⟩
  · rintro ⟨houtside, hplace⟩
    exact ⟨Source.outside_pendingAt_iff.2 houtside, (hgathered houtside).symm ▸ hplace⟩

end Scanner

/-- The places in front of the first fault that take a comment are among those that a scanner comes
by. Only the end of a source whose last comment is never closed is none of them. -/
theorem Source.takesComment_iff_exists_reachable {scope a b : Text}
    (hfault : ∀ e, parse scope (a ++ b) = .error e → a.length ≤ e.offset) :
    TakesComment a b ↔
      Text.OutsideComments a b ∧ ∃ s, Scanner.Reachable scope (a ++ b) s ∧
        s.position = a.length ∧ (s.buffer = [] ∨
          (∃ x ∈ a.getLast?, x.isWhitespace = false) ∧ ∃ y ∈ b.head?, y.isWhitespace = false) := by
  constructor
  · intro htakes
    have houtside := outside_pendingAt_iff.1 htakes.outside
    obtain ⟨s, hs, hposition⟩ := Scanner.exists_reachable_iff.2 ⟨hfault, .inl houtside⟩
    exact ⟨houtside, s, hs, hposition, ((hs.takesComment_iff hposition).1 htakes).2⟩
  · rintro ⟨houtside, s, hs, hposition, hplace⟩
    exact (hs.takesComment_iff hposition).2 ⟨houtside, hplace⟩

end ScopedStyles
