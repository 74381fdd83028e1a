import ScopedStyles.Proofs.Grammar.Outcome
import ScopedStyles.Proofs.Source.Lookahead
import ScopedStyles.Proofs.Source.Tidy

/-!
# Runs of blanks

The first blank of a run is read with a look at what follows it, and every other one is left out. So
a run of several blanks is read like a single one that stands in front of a blank. In front of a
delimiter this makes no difference, since the piece is trimmed. In front of a comma it does: a
single blank is left out there, but of several the first one is kept.

## Main definitions

* `Text.IsRun` — one or more scanner blanks.

## Main statements

* `Source.pendingAt_run` — what is pending behind a run.
* `Source.pieces_run` — behind runs that are not told apart by a comma, the pieces are the same.
* `parse_reformatted` — a run can be replaced by another one, unless a comma tells them apart.
-/

namespace ScopedStyles

/-- One or more scanner blanks. -/
structure Text.IsRun (w : Text) : Prop where
  ne_nil : w ≠ []
  blank : ∀ c ∈ w, c.isWhitespace = true

instance (w : Text) : Decidable w.IsRun :=
  have := List.decidableBAll (fun c => c.isWhitespace = true) w
  decidable_of_iff (w ≠ [] ∧ ∀ c ∈ w, c.isWhitespace = true)
    ⟨fun h => ⟨h.1, h.2⟩, fun h => ⟨h.ne_nil, h.blank⟩⟩

theorem Text.IsRun.plain {w : Text} (h : w.IsRun) : w.Plain :=
  fun c hc => Delimiter.ofChar?_of_isWhitespace (h.blank c hc)

namespace Pending

variable {p : Pending}

/-! ## Reading a run -/

/-- Behind a blank every further blank is left out. -/
theorem after_of_tight (gathered : Text) {w : Text} (hw : ∀ c ∈ w, c.isWhitespace = true)
    (next : Option Char) : Pending.after { gathered } next w = { gathered } := by
  induction w with
  | nil => rfl
  | cons c w ih =>
    obtain ⟨hc, hw⟩ := List.forall_mem_cons.1 hw
    rw [after, read_of_isWhitespace rfl hc]
    exact ih hw

theorem drawsNear_iff {c : Char} : drawsNear c = true ↔ c = ',' ∨ ∃ d : Delimiter, c = d.char := by
  constructor
  · intro h
    simp only [drawsNear, Bool.or_eq_true, decide_eq_true_eq] at h
    rcases h with ((rfl | rfl) | rfl) | rfl
    · exact .inr ⟨.openBrace, rfl⟩
    · exact .inr ⟨.closeBrace, rfl⟩
    · exact .inr ⟨.semicolon, rfl⟩
    · exact .inl rfl
  · rintro (rfl | ⟨d, rfl⟩)
    · rfl
    · cases d <;> rfl

/-- Whether a space is kept of a run that stands before `next`. -/
def keepsRun (p : Pending) (w : Text) (next : Option Char) : Bool :=
  p.keepsBlank none && !(decide (w.length = 1) && next.any drawsNear)

theorem after_run (hphase : p.phase = .outside) {w : Text} (hw : w.IsRun) (next : Option Char) :
    p.after next w =
      { gathered := if p.keepsRun w next then ' ' :: p.gathered else p.gathered } := by
  obtain ⟨c, w, rfl⟩ := List.exists_cons_of_ne_nil hw.ne_nil
  obtain ⟨hc, hrest⟩ := List.forall_mem_cons.1 hw.blank
  have hkeeps : p.keepsBlank (w.head?.or next) = p.keepsRun (c :: w) next := by
    cases w with
    | nil => simp [keepsBlank, keepsRun]
    | cons d w =>
      simp [keepsBlank, keepsRun, drawsNear_of_isWhitespace (hrest d List.mem_cons_self)]
  rw [after, read_of_isWhitespace hphase hc, after_of_tight _ hrest, hkeeps]

/-! ## In front of a delimiter -/

/-- A delimiter ends the chunk, and nothing is pending behind it. -/
theorem chunks_cons_char (hphase : p.phase = .outside) (d : Delimiter) (offset : Nat)
    (next : Option Char) (t : Text) :
    p.chunks offset next (d.char :: t) =
      ⟨p.text, d, offset⟩ :: Pending.chunks {} (offset + 1) next t := by
  have hd := delimiter?_char hphase d
  simp only [chunks, hd, read_of_delimiter? hd]

theorem after_cons_char (hphase : p.phase = .outside) (d : Delimiter) (next : Option Char)
    (t : Text) : p.after next (d.char :: t) = Pending.after {} next t := by
  rw [after, read_of_delimiter? (delimiter?_char hphase d)]

end Pending

namespace Source

variable {a b w w' : Text}

/-! ## Replacing a run -/

/-- What is pending in front of a run does not depend on the run. -/
theorem pendingAt_of_run (hw : w.IsRun) (b : Text) :
    pendingAt a (w ++ b) = Pending.after {} (some ' ') a := by
  obtain ⟨c, w, rfl⟩ := List.exists_cons_of_ne_nil hw.ne_nil
  exact (Pending.sameAhead_space (hw.blank c List.mem_cons_self)).after {} a

theorem pendingAt_run (houtside : (Pending.after {} (some ' ') a).phase = .outside)
    (hw : w.IsRun) (b : Text) :
    pendingAt (a ++ w) b =
      { gathered :=
          if (Pending.after {} (some ' ') a).keepsRun w b.head? then
            ' ' :: (Pending.after {} (some ' ') a).gathered
          else (Pending.after {} (some ' ') a).gathered } := by
  rw [pendingAt_append, pendingAt_of_run hw, Pending.after_run houtside hw]

/-- The pieces that start behind a run. -/
theorem pieces_append_run (hw : w.IsRun) (b : Text) :
    pieces (a ++ w ++ b) =
      pieces a ++ ((pendingAt (a ++ w) b).chunks 0 none b).map Chunk.piece := by
  have hnone : (pendingAt a w).chunks 0 none w = [] := Pending.chunks_eq_nil hw.plain _ _ _
  rw [pieces, chunks_eq_append, chunks_eq_append a w, hnone]
  simp only [List.map_nil, List.append_nil, List.map_append, List.map_map]
  rfl

/-- A comma tells two runs apart: a blank can be kept in front of it, and one of the runs is a
single blank and the other one is not. -/
def TellsApart (a w w' b : Text) : Prop :=
  (pendingAt a (w ++ b)).keepsBlank none = true ∧ b.head? = some ',' ∧
    ¬ (w.length = 1 ↔ w'.length = 1)

instance (a w w' b : Text) : Decidable (TellsApart a w w' b) :=
  inferInstanceAs (Decidable (_ ∧ _ ∧ ¬ _))

/-- Where no comma tells two runs apart, the same is pending behind both, or a delimiter follows. -/
theorem keepsRun_eq_or (hw : w.IsRun) (h : ¬ TellsApart a w w' b) :
    (Pending.after {} (some ' ') a).keepsRun w b.head? =
        (Pending.after {} (some ' ') a).keepsRun w' b.head? ∨
      ∃ d : Delimiter, b.head? = some d.char := by
  rw [TellsApart, pendingAt_of_run hw] at h
  unfold Pending.keepsRun
  cases hhead : b.head? with
  | none => simp
  | some c =>
    by_cases hnear : Pending.drawsNear c = true
    · rcases Pending.drawsNear_iff.1 hnear with rfl | ⟨d, rfl⟩
      · left
        by_cases hkeeps : (Pending.after {} (some ' ') a).keepsBlank none = true
        · simp_all
        · simp [hkeeps]
      · exact .inr ⟨d, rfl⟩
    · simp [hnear]

/-- Two pending texts that are the same, or that a delimiter makes the same once they are trimmed,
are read on alike. -/
theorem pieces_of_trim (gathered gathered' : Text)
    (h : gathered = gathered' ∨ (∃ d : Delimiter, b.head? = some d.char) ∧
      Text.trim gathered.reverse = Text.trim gathered'.reverse) :
    (Pending.chunks { gathered } 0 none b).map Chunk.piece =
        (Pending.chunks { gathered := gathered' } 0 none b).map Chunk.piece ∧
      Pending.after { gathered } none b = Pending.after { gathered := gathered' } none b := by
  obtain rfl | ⟨⟨d, hd⟩, htrim⟩ := h
  · exact ⟨rfl, rfl⟩
  · obtain ⟨rest, rfl⟩ := List.head?_eq_some_iff.1 hd
    rw [Pending.chunks_cons_char rfl, Pending.chunks_cons_char rfl, Pending.after_cons_char rfl,
      Pending.after_cons_char rfl]
    simp [Chunk.piece, Pending.text, htrim]

/-- Runs that no comma tells apart leave the same pieces. In front of a delimiter the pending texts
may differ in a space at the end, in front of everything else they are the same. -/
theorem pieces_run (houtside : (pendingAt a (w ++ b)).phase = .outside) (hw : w.IsRun)
    (hw' : w'.IsRun) (h : ¬ TellsApart a w w' b) :
    pieces (a ++ w ++ b) = pieces (a ++ w' ++ b) ∧
      lastPiece (a ++ w ++ b) = lastPiece (a ++ w' ++ b) := by
  rw [pendingAt_of_run hw] at houtside
  rw [pieces_append_run hw, pieces_append_run hw', lastPiece, lastPiece, remainder_eq_after,
    remainder_eq_after, pendingAt_run houtside hw, pendingAt_run houtside hw']
  have hkept := keepsRun_eq_or hw h
  generalize Pending.after {} (some ' ') a = p at hkept
  obtain ⟨hchunks, hafter⟩ := pieces_of_trim (b := b)
    (if p.keepsRun w b.head? then ' ' :: p.gathered else p.gathered)
    (if p.keepsRun w' b.head? then ' ' :: p.gathered else p.gathered) <| by
      rcases hkept with hkept | hd
      · exact .inl (by rw [hkept])
      · exact .inr ⟨hd, by rw [Pending.trim_kept, Pending.trim_kept]⟩
  rw [hchunks, hafter]
  exact ⟨rfl, rfl⟩

/-- In front of a comma, the same is pending behind two runs exactly if it does not tell them
apart. -/
theorem pendingAt_eq_iff (houtside : (pendingAt a (w ++ b)).phase = .outside) (hw : w.IsRun)
    (hw' : w'.IsRun) (hcomma : b.head? = some ',') :
    pendingAt (a ++ w) b = pendingAt (a ++ w') b ↔ ¬ TellsApart a w w' b := by
  rw [TellsApart, pendingAt_of_run hw]
  rw [pendingAt_of_run hw] at houtside
  rw [pendingAt_run houtside hw, pendingAt_run houtside hw', hcomma]
  generalize Pending.after {} (some ' ') a = p
  have hnear : Pending.drawsNear ',' = true := rfl
  by_cases hkeeps : p.keepsBlank none = true <;> by_cases hone : w.length = 1 <;>
    by_cases hone' : w'.length = 1 <;> simp [Pending.keepsRun, hkeeps, hone, hone', hnear]

end Source

/-- A run of blanks outside comments can be replaced by any other run, unless a comma tells the two
apart: the source comes to the same rule tree, or to a fault of the same kind. A comma tells two
runs apart exactly if a space stays pending in front of it behind the one and not behind the
other. -/
theorem parse_reformatted {a b w w' : Text}
    (houtside : (Source.pendingAt a (w ++ b)).phase = .outside) (hw : w.IsRun) (hw' : w'.IsRun) :
    (¬ Source.TellsApart a w w' b → ∀ scope,
      (parse scope (a ++ w ++ b)).mapError (·.fault.kind) =
        (parse scope (a ++ w' ++ b)).mapError (·.fault.kind)) ∧
    (b.head? = some ',' →
      (Source.pendingAt (a ++ w) b = Source.pendingAt (a ++ w') b ↔
        ¬ Source.TellsApart a w w' b)) := by
  refine ⟨fun h scope => ?_, Source.pendingAt_eq_iff houtside hw hw'⟩
  obtain ⟨hpieces, hlast⟩ := Source.pieces_run houtside hw hw' h
  exact parse_congr_of_pieces hpieces hlast

theorem parse_reformatted_lines :
    (Source.pendingAt "h1".toList "\r\n,h2{m:0}".toList).phase = .outside ∧
    Text.IsRun "\r\n".toList ∧ Text.IsRun "   ".toList ∧
    (∀ scope, (parse scope "h1\r\n,h2{m:0}".toList).mapError (·.fault.kind) =
      (parse scope "h1   ,h2{m:0}".toList).mapError (·.fault.kind)) ∧
    Source.pendingAt "h1\r\n".toList ",h2{m:0}".toList =
      Source.pendingAt "h1   ".toList ",h2{m:0}".toList := by
  have houtside : (Source.pendingAt "h1".toList
      ("\r\n".toList ++ ",h2{m:0}".toList)).phase = .outside := by decide +kernel
  have hrun : Text.IsRun "\r\n".toList := by decide
  have hrun' : Text.IsRun "   ".toList := by decide
  have hsame : ¬ Source.TellsApart "h1".toList "\r\n".toList "   ".toList
      ",h2{m:0}".toList := by decide +kernel
  obtain ⟨houtcome, hpending⟩ := parse_reformatted houtside hrun hrun'
  exact ⟨houtside, hrun, hrun', houtcome hsame, (hpending rfl).2 hsame⟩

/-- A second blank in front of a comma changes the selector. -/
theorem comma_tells_blanks_apart :
    (Source.pendingAt ['a'] " ,b{c:d}".toList).phase = .outside ∧
    Text.IsRun [' '] ∧ Text.IsRun [' ', ' '] ∧
    parse ['k'] (['a'] ++ [' '] ++ ",b{c:d}".toList) =
      .ok ⟨[.ruleSet ⟨".k a,b".toList, ⟨[(['c'], ['d'])]⟩⟩], ∅⟩ ∧
    parse ['k'] (['a'] ++ [' ', ' '] ++ ",b{c:d}".toList) =
      .ok ⟨[.ruleSet ⟨".k a ,b".toList, ⟨[(['c'], ['d'])]⟩⟩], ∅⟩ := by
  decide +kernel

end ScopedStyles
