import ScopedStyles.Proofs.FlatRule.Unread
import ScopedStyles.Proofs.Text.Location

/-!
# Rejections point at the failure

A text that is rejected is read up to the first character that may not stand where it stands. What
is read up to there is the beginning of some flat rule, and with that character it no longer is,
unless that is an at sign.

## Main definitions

* `FlatDraft.StopsAt` — where the reading of a text stops.

## Main statements

* `FlatRule.exists_stopsAt` — a rejection is about the place where the reading of its text stops.
* `rejection_located` — what a rejection says is right.
-/

namespace ScopedStyles

/-! ## Drafts -/

namespace FlatDraft

/-- A draft stops in a text: it reads what is before, and no rule is completed if the first
character of what is after follows, unless that is an at sign. -/
structure StopsAt (d : FlatDraft) (before after : Text) : Prop where
  plain : before.Plain
  reads : ∃ part, d.expected.part before = .ok part
  refuses : ∀ c ∈ after.head?, c ≠ '@' → ∀ more, ¬ d.Completes (before ++ c :: more)

variable {d : FlatDraft}

/-- Where the reading of a part stops, no rule is completed. -/
theorem not_completes_of_stops {before : Text} {c : Char} (hplain : Text.Plain (before ++ [c]))
    (h : Part.Stops d.expected.part before c) (hat : c ≠ '@') (more : Text) :
    ¬ d.Completes (before ++ c :: more) := by
  obtain ⟨pieces, rest, rfl, hpieces, hrest⟩ := exists_pieces more
  rw [List.append_cons]
  cases pieces with
  | nil =>
    have hall : Text.Plain (before ++ [c] ++ rest) := Text.plain_append_iff.2 ⟨hplain, hrest⟩
    rw [List.flatMap_nil, List.nil_append, completes_plain_iff hall]
    rintro ⟨-, hignored⟩
    have hread := d.expected.part_ignored hignored
    rw [List.append_assoc, List.singleton_append, h.refuses hat] at hread
    cases hread
  | cons piece pieces =>
    obtain ⟨hpiece, -⟩ := List.forall_mem_cons.1 hpieces
    have hall : Text.Plain (before ++ [c] ++ piece.text) := Text.plain_append_iff.2 ⟨hplain, hpiece⟩
    have hsplit : before ++ [c] ++ ((piece :: pieces).flatMap Piece.written ++ rest) =
        Piece.written ⟨before ++ [c] ++ piece.text, piece.delimiter⟩ ++
          (pieces.flatMap Piece.written ++ rest) := by
      simp [Piece.written]
    rw [hsplit, completes_written_iff hall]
    rintro ⟨next, haccept, -⟩
    rw [accept?, List.append_assoc, List.singleton_append, h.refuses hat] at haccept
    cases haccept

/-- A part that is not read to its end makes the draft stop where something is handed back. -/
theorem exists_stopsAt_of_part {t unread : Text} (ht : t.Plain)
    (h : d.expected.part t = .error unread) (rest : Text) :
    ∃ before after, t ++ rest = before ++ after ∧ after.length = unread.length + rest.length ∧
      d.StopsAt before after := by
  obtain ⟨before, c, after, rfl, rfl, hstops⟩ := Expected.handsBack h
  obtain ⟨hbefore, hafter⟩ := Text.plain_append_iff.1 ht
  obtain ⟨hc, -⟩ := Text.plain_cons_iff.1 hafter
  have hlength : (c :: after ++ rest).length = (c :: after).length + rest.length :=
    List.length_append
  refine ⟨before, c :: after ++ rest, by simp, hlength, hbefore, hstops.reads, fun d hd hat => ?_⟩
  obtain rfl : c = d := by simpa using hd
  exact not_completes_of_stops (Text.plain_append_iff.2 ⟨hbefore, by simpa using hc⟩) hstops hat

/-- A delimiter that may not follow a part makes the draft stop in front of it. -/
theorem stopsAt_of_take {piece : Piece} {part : Part} (hpiece : piece.text.Plain)
    (hread : d.expected.part piece.text = .ok part) (htake : d.take part piece.delimiter = none)
    (rest : Text) : d.StopsAt piece.text (piece.delimiter.char :: rest) := by
  refine ⟨hpiece, ⟨part, hread⟩, fun c hc _ more => ?_⟩
  obtain rfl : piece.delimiter.char = c := by simpa using hc
  have hwritten : piece.text ++ piece.delimiter.char :: more = piece.written ++ more := by
    simp [Piece.written]
  rw [hwritten, completes_written_iff hpiece, accept?, hread]
  rintro ⟨next, haccept, -⟩
  cases htake.symm.trans haccept

/-- Pieces that are not all accepted are read up to a place where the draft stops. -/
theorem exists_stopsAt_of_readAll {pieces : List Piece}
    (hpieces : ∀ piece ∈ pieces, piece.text.Plain) {rest : Text} (hrest : rest.Plain)
    {offset p : Nat}
    (h : d.readAll (Chunk.cutFrom [] offset (pieces.flatMap Piece.written ++ rest)) = .error p) :
    ∃ (front : List Piece) (before after : Text) (d' : FlatDraft),
      (∀ piece ∈ front, piece.text.Plain) ∧
      pieces.flatMap Piece.written ++ rest = front.flatMap Piece.written ++ (before ++ after) ∧
      p = offset + (front.flatMap Piece.written ++ before).length ∧
      d.acceptAll? front = some d' ∧ d'.StopsAt before after := by
  induction pieces generalizing d offset with
  | nil =>
    have hcut : Chunk.cutFrom [] offset rest = [] := by
      simpa [Chunk.cutFrom] using Chunk.cutFrom_plain hrest [] offset []
    simp [hcut, readAll] at h
  | cons piece pieces ih =>
    obtain ⟨hpiece, hpieces⟩ := List.forall_mem_cons.1 hpieces
    rw [List.flatMap_cons, List.append_assoc, Chunk.cutFrom_written hpiece, readAll] at h
    rw [List.flatMap_cons, List.append_assoc]
    split at h
    · next unread hread =>
      obtain rfl := Except.error.inj h
      obtain ⟨before, after, hsplit, hlength, hstops⟩ := exists_stopsAt_of_part hpiece hread
        (piece.delimiter.char :: (pieces.flatMap Piece.written ++ rest))
      refine ⟨[], before, after, d, by simp, by simpa [Piece.written] using hsplit, ?_, rfl, hstops⟩
      have htotal := congrArg List.length hsplit
      simp only [List.length_append, List.length_cons] at htotal hlength
      simp only [List.flatMap_nil, List.nil_append]
      omega
    · next part hread =>
      split at h
      · next next htake =>
        obtain ⟨front, before, after, d', hfront, hsplit, rfl, haccept, hstops⟩ := ih hpieces h
        refine ⟨piece :: front, before, after, d', List.forall_mem_cons.2 ⟨hpiece, hfront⟩, ?_, ?_,
          ?_, hstops⟩
        · rw [hsplit, List.flatMap_cons, List.append_assoc]
        · simp only [List.flatMap_cons, List.length_append, Piece.written, List.length_singleton]
          omega
        · have hnext : d.accept? piece = some next := by
            rw [accept?, hread]
            exact htake
          rw [acceptAll?_cons, hnext]
          exact haccept
      · next htake =>
        obtain rfl := Except.error.inj h
        refine ⟨[], piece.text, _, d, by simp, ?_, by simp, rfl,
          stopsAt_of_take hpiece hread htake (pieces.flatMap Piece.written ++ rest)⟩
        simp [Piece.written]

/-- A draft in which no rule is complete stops at the end of a text at the latest. -/
theorem exists_stopsAt_of_finish {rest : Text} (hrest : rest.Plain) {length p : Nat}
    (hlength : rest.length ≤ length) (h : d.finish rest length = .error p) :
    ∃ before after, rest = before ++ after ∧ p + after.length = length ∧
      d.StopsAt before after := by
  unfold finish at h
  split at h
  · next unread hread =>
    obtain rfl := Except.error.inj h
    obtain ⟨before, after, hsplit, hafter, hstops⟩ := exists_stopsAt_of_part hrest hread []
    have htotal := congrArg List.length hsplit
    simp only [List.length_append, List.length_nil] at htotal hafter
    exact ⟨before, after, by simpa using hsplit, by omega, hstops⟩
  · next part hread =>
    split at h
    · cases h
    · obtain rfl := Except.error.inj h
      exact ⟨rest, [], by simp, by simp, hrest, ⟨part, hread⟩, by simp⟩

end FlatDraft

/-! ## Texts -/

/-- A text that is rejected is read up to a place where the draft stops, and this is the place that
the rejection is about. -/
theorem FlatRule.exists_stopsAt {t : Text} {r : Rejection} (h : FlatRule.read t = .error r) :
    ∃ (front : List Piece) (before after : Text) (d : FlatDraft),
      (∀ piece ∈ front, piece.text.Plain) ∧ t = front.flatMap Piece.written ++ (before ++ after) ∧
      r = .ofOffset t (front.flatMap Piece.written ++ before).length ∧
      FlatDraft.acceptAll? {} front = some d ∧ d.StopsAt before after := by
  obtain ⟨pieces, rest, rfl, hpieces, hrest⟩ := exists_pieces t
  rw [FlatRule.read, Chunk.cut, Chunk.rest, Chunk.restFrom_written hpieces hrest] at h
  split at h
  · next offset hread =>
    obtain rfl := Except.error.inj h
    obtain ⟨front, before, after, d, hfront, hsplit, rfl, haccept, hstops⟩ :=
      FlatDraft.exists_stopsAt_of_readAll hpieces hrest hread
    exact ⟨front, before, after, d, hfront, hsplit, by rw [Nat.zero_add], haccept, hstops⟩
  · next d hread =>
    have haccept := FlatDraft.toOption_readAll hpieces hrest {} 0
    rw [hread] at haccept
    cases hfinish : d.finish rest (pieces.flatMap Piece.written ++ rest).length with
    | ok flat =>
      rw [hfinish] at h
      cases h
    | error p =>
      rw [hfinish] at h
      obtain rfl := Except.error.inj h
      obtain ⟨before, after, rfl, hp, hstops⟩ :=
        FlatDraft.exists_stopsAt_of_finish hrest (by simp) hfinish
      refine ⟨pieces, before, after, d, hpieces, rfl, ?_, haccept.symm, hstops⟩
      congr 1
      simp only [List.length_append] at hp ⊢
      omega

/-- What a rejection says is right. Either the text ends too early, and more can be added to it so
that it is accepted. Or a character is named and a location given: it stands at the only offset with
this location, the text in front of it is the beginning of some text that is accepted, and unless it
is an at sign, that text with the character behind it is the beginning of none. -/
theorem rejection_located {t : Text} {r : Rejection} (h : FlatRule.read t = .error r) :
    (r.reason t = "Unexpected end-of-input. Expected one of: ".toList ∧
      ∃ more, FlatRule.accepts (t ++ more) = true) ∨
    ∃ (c : Char) (l : Location) (p : Nat),
      r.reason t = "No terminal matches '".toList ++
        c :: "' in the current parser context, at line ".toList ++ Text.ofNat l.line ++
        " col ".toList ++ Text.ofNat l.column ∧
      (∀ q ≤ t.length, l.Follows (t.take q) ↔ q = p) ∧ t[p]? = some c ∧
      (∃ more, FlatRule.accepts (t.take p ++ more) = true) ∧
      (c ≠ '@' → ∀ more, ¬ FlatRule.accepts (t.take (p + 1) ++ more) = true) := by
  obtain ⟨front, before, after, d, hfront, ht, hr, haccept, hstops⟩ := FlatRule.exists_stopsAt h
  rw [← List.append_assoc] at ht
  have hcompletes (s : Text) :
      FlatRule.accepts (front.flatMap Piece.written ++ before ++ s) = true ↔
        d.Completes (before ++ s) := by
    rw [FlatRule.accepts_iff_completes, List.append_assoc,
      FlatDraft.completes_append_iff hfront, haccept]
    simp
  obtain ⟨part, hread⟩ := hstops.reads
  obtain ⟨more, hmore⟩ := FlatDraft.exists_completes_append hstops.plain hread
  have hviable := (hcompletes more).2 hmore
  generalize front.flatMap Piece.written ++ before = consumed at ht hr hcompletes hviable
  subst ht
  cases after with
  | nil =>
    have hend : r = .endOfText := by
      rw [hr, Rejection.ofOffset, List.append_nil, List.getElem?_length]
    rw [hend, List.append_nil]
    exact .inl ⟨rfl, more, hviable⟩
  | cons c rest =>
    have hc : (consumed ++ c :: rest)[consumed.length]? = some c := by simp
    have hnamed : r = .unexpected c consumed.length := by rw [hr, Rejection.ofOffset, hc]
    have hle : consumed.length ≤ (consumed ++ c :: rest).length := by simp
    refine .inr ⟨c, Text.locate (consumed ++ c :: rest) consumed.length, consumed.length, ?_,
      fun q hq => ?_, hc, ⟨more, by simpa using hviable⟩, fun hat more haccepts => ?_⟩
    · rw [hnamed]
      rfl
    · rw [Location.follows_iff]
      exact (Text.locate_inj hle hq).trans eq_comm
    · have htake : (consumed ++ c :: rest).take (consumed.length + 1) ++ more =
          consumed ++ c :: more := by
        rw [List.take_length_add_append]
        simp
      rw [htake, hcompletes] at haccepts
      exact hstops.refuses c rfl hat more haccepts

theorem rejection_located_blank :
    FlatRule.read "@media x\x7b\n@keyframes a\u00a0".toList = .error (.unexpected '\u00a0' 22) ∧
      (∃ more, FlatRule.accepts ("@media x\x7b\n@keyframes a".toList ++ more) = true) ∧
      ∀ more, ¬ FlatRule.accepts ("@media x\x7b\n@keyframes a\u00a0".toList ++ more) = true := by
  have h : FlatRule.read "@media x\x7b\n@keyframes a\u00a0".toList =
      .error (.unexpected '\u00a0' 22) := by decide +kernel
  have hreason : Rejection.reason "@media x\x7b\n@keyframes a\u00a0".toList
      (.unexpected '\u00a0' 22) = "No terminal matches '".toList ++
        '\u00a0' :: "' in the current parser context, at line 2 col 13".toList := by
    decide +kernel
  have hplace : ∀ p < 23,
      "@media x\x7b\n@keyframes a\u00a0".toList[p]? = some '\u00a0' → p = 22 := by
    decide +kernel
  rcases rejection_located h with ⟨hend, -⟩ | ⟨c, l, p, hnamed, -, hc, hviable, hrefused⟩
  · rw [hreason] at hend
    exact absurd (List.cons.inj hend).1 (by decide)
  · -- The character is the one that is named, and it stands in one place only.
    obtain rfl : '\u00a0' = c := by
      rw [hreason, List.append_assoc, List.append_assoc] at hnamed
      exact (List.cons.inj (List.append_cancel_left hnamed)).1
    obtain ⟨hp, -⟩ := List.getElem?_eq_some_iff.1 hc
    obtain rfl := hplace p hp hc
    exact ⟨h, hviable, hrefused (by decide)⟩

end ScopedStyles
