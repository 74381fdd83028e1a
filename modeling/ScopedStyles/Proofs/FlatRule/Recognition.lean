import ScopedStyles.Proofs.FlatRule.Greedy

/-!
# Reading recognises the grammar of flat rules

Whichever way a text is laid out, its pieces are read as parts of the same kinds, and only kinds
decide what may come next. So reading finds a rule whenever there is one that the text derives from.

## Main statements

* `FlatDraft.exists_acceptAll?_of_shown` — pieces that show segments are accepted if the segments
  may come next.
* `FlatDraft.exists_shown_of_acceptAll?` — pieces that are accepted show segments that may come
  next.
* `accepts_iff_derives` — the texts that are read are those that derive from a flat rule. A rule
  that is read is one that the text derives from, and it is read back as it is written.
-/

namespace ScopedStyles

/-! ## Texts as pieces -/

/-- Every text consists of pieces and a rest that hold no delimiters. -/
theorem exists_pieces (t : Text) : ∃ (pieces : List Piece) (rest : Text),
    t = pieces.flatMap Piece.written ++ rest ∧ (∀ piece ∈ pieces, piece.text.Plain) ∧
      rest.Plain := by
  induction t with
  | nil => exact ⟨[], [], rfl, by simp, Text.plain_nil⟩
  | cons c t ih =>
    obtain ⟨pieces, rest, rfl, hpieces, hrest⟩ := ih
    cases hdelimiter : Delimiter.ofChar? c with
    | some delimiter =>
      obtain rfl := Delimiter.ofChar?_eq_some_iff.1 hdelimiter
      refine ⟨⟨[], delimiter⟩ :: pieces, rest, rfl, ?_, hrest⟩
      exact List.forall_mem_cons.2 ⟨Text.plain_nil, hpieces⟩
    | none =>
      cases pieces with
      | nil => exact ⟨[], c :: rest, rfl, by simp, Text.plain_cons_iff.2 ⟨hdelimiter, hrest⟩⟩
      | cons piece pieces =>
        obtain ⟨hpiece, hpieces⟩ := List.forall_mem_cons.1 hpieces
        refine ⟨⟨c :: piece.text, piece.delimiter⟩ :: pieces, rest, rfl, ?_, hrest⟩
        exact List.forall_mem_cons.2 ⟨Text.plain_cons_iff.2 ⟨hdelimiter, hpiece⟩, hpieces⟩

theorem plain_of_shown {segments : List Segment} {pieces : List Piece}
    (h : List.Forall₂ Segment.Shown segments pieces) : ∀ piece ∈ pieces, piece.text.Plain := by
  induction h with
  | nil => simp
  | cons hshown _ ih => exact List.forall_mem_cons.2 ⟨hshown.plain, ih⟩

/-! ## Piece by piece -/

namespace FlatDraft

variable {d d' e : FlatDraft} {segment : Segment} {segments : List Segment} {piece : Piece}
  {pieces : List Piece}

theorem Takes.allows (h : Takes d segment d') : d.expected.Allows segment.part := by
  cases h <;> constructor

/-- A piece that shows a segment is accepted in place of it. -/
theorem Alike.exists_accept? (h : d.Alike e) (hshown : segment.Shown piece)
    (htake : d.take segment.part segment.delimiter = some d') :
    ∃ e', e.accept? piece = some e' ∧ d'.Alike e' := by
  have hallows := (take_eq_some_iff.1 htake).allows.of_alike h.expected
  obtain ⟨part, hread, hpart⟩ := Expected.exists_part_of_spread hallows hshown.spread
  obtain ⟨e', htake', halike⟩ := h.take hpart htake
  refine ⟨e', ?_, halike⟩
  rw [accept?, hread, hshown.delimiter]
  exact htake'

/-- Pieces that show segments are accepted if the segments may come next. -/
theorem exists_acceptAll?_of_shown (h : d.Alike e)
    (hshown : List.Forall₂ Segment.Shown segments pieces) (htake : d.takeAll? segments = some d') :
    ∃ e', e.acceptAll? pieces = some e' ∧ d'.Alike e' := by
  induction hshown generalizing d e with
  | nil =>
    obtain rfl : d = d' := by simpa using htake
    exact ⟨e, rfl, h⟩
  | cons hshown _ ih =>
    obtain ⟨next, hnext, htake⟩ := Option.bind_eq_some_iff.1 htake
    obtain ⟨enext, haccept, halike⟩ := h.exists_accept? hshown hnext
    obtain ⟨e', hall, halike'⟩ := ih halike htake
    exact ⟨e', by rw [acceptAll?_cons, haccept]; exact hall, halike'⟩

/-- A piece that is accepted shows a segment that may come next. -/
theorem exists_shown_of_accept? (hpiece : piece.text.Plain) (h : d.accept? piece = some d') :
    ∃ segment : Segment, segment.Shown piece ∧
      d.take segment.part segment.delimiter = some d' := by
  unfold accept? at h
  split at h
  · cases h
  · next part hread =>
    have hpart : part ≠ .incomplete := by
      rintro rfl
      cases take_eq_some_iff.1 h
    exact ⟨⟨part, piece.delimiter⟩, ⟨rfl, Expected.spread_of_part hpiece hread hpart⟩, h⟩

/-- Pieces that are accepted show segments that may come next. -/
theorem exists_shown_of_acceptAll? (hpieces : ∀ piece ∈ pieces, piece.text.Plain)
    (h : d.acceptAll? pieces = some d') :
    ∃ segments : List Segment, List.Forall₂ Segment.Shown segments pieces ∧
      d.takeAll? segments = some d' := by
  induction pieces generalizing d with
  | nil => exact ⟨[], .nil, h⟩
  | cons piece pieces ih =>
    obtain ⟨hpiece, hpieces⟩ := List.forall_mem_cons.1 hpieces
    obtain ⟨next, haccept, hall⟩ := Option.bind_eq_some_iff.1 h
    obtain ⟨segment, hshown, htake⟩ := exists_shown_of_accept? hpiece haccept
    obtain ⟨segments, hshownAll, htakeAll⟩ := ih hpieces hall
    refine ⟨segment :: segments, .cons hshown hshownAll, ?_⟩
    rw [takeAll?_cons, htake]
    exact htakeAll

/-- Segments that are written as they are kept are accepted as they are. -/
theorem acceptAll?_piece
    (hvalid : ∀ segment ∈ segments, ∀ token ∈ segment.part.tokens, token.IsValid)
    (h : d.takeAll? segments = some d') : d.acceptAll? (segments.map Segment.piece) = some d' := by
  induction segments generalizing d with
  | nil => exact h
  | cons segment segments ih =>
    obtain ⟨hsegment, hsegments⟩ := List.forall_mem_cons.1 hvalid
    obtain ⟨next, htake, hall⟩ := Option.bind_eq_some_iff.1 h
    have hread := Expected.part_text (take_eq_some_iff.1 htake).allows hsegment
    have haccept : d.accept? segment.piece = some next := by
      rw [accept?, Segment.piece, hread]
      exact htake
    rw [List.map_cons, acceptAll?_cons, haccept]
    exact ih hsegments hall

end FlatDraft

/-! ## Recognition -/

/-- A text that is read derives from the rule that it is read as. -/
theorem FlatRule.derives_of_read {t : Text} {flat : FlatRule} (h : FlatRule.read t = .ok flat) :
    flat.Derives t := by
  obtain ⟨pieces, rest, rfl, hpieces, hrest⟩ := exists_pieces t
  obtain ⟨d, haccept, hcomplete, hskip⟩ := (FlatRule.read_append_eq_ok_iff hpieces hrest).1 h
  obtain ⟨segments, hshown, htake⟩ := FlatDraft.exists_shown_of_acceptAll? hpieces haccept
  obtain rfl := FlatDraft.takeAll?_start_iff.1 ⟨d, htake, hcomplete⟩
  exact FlatRule.derives_iff.2 ⟨pieces, rest, rfl, hshown, Part.skip_eq_nil_iff.1 hskip⟩

/-- A text that derives from some rule is read. -/
theorem FlatRule.exists_read_of_derives {t : Text} {flat : FlatRule} (h : flat.Derives t) :
    ∃ flat', FlatRule.read t = .ok flat' := by
  obtain ⟨pieces, gap, rfl, hshown, hgap⟩ := FlatRule.derives_iff.1 h
  have hpieces := plain_of_shown hshown
  have hstart : FlatDraft.Alike {} {} := ⟨.rule, rfl⟩
  have htake := FlatDraft.takeAll?_segments [] flat
  obtain ⟨⟨expected, groups⟩, haccept, halike⟩ :=
    FlatDraft.exists_acceptAll?_of_shown hstart hshown htake
  -- A draft that is like one with a complete rule has a complete rule too.
  cases halike.expected with
  | nothing _ flat' =>
    exact ⟨flat', (FlatRule.read_append_eq_ok_iff hpieces hgap.plain).2
      ⟨_, haccept, rfl, Part.skip_eq_nil_iff.2 hgap⟩⟩

/-- A rule that is read is read back as it is written. -/
theorem FlatRule.read_text_of_derives {t : Text} {flat : FlatRule} (h : flat.Derives t) :
    FlatRule.read flat.text = .ok flat := by
  have hvalid : ∀ segment ∈ flat.segments, ∀ token ∈ segment.part.tokens, token.IsValid := by
    intro segment hsegment token htoken
    refine h.isValid token ?_
    rw [FlatRule.tokens_eq_flatMap]
    exact List.mem_flatMap.2 ⟨segment, hsegment, List.mem_append_left _ htoken⟩
  have hpieces : ∀ piece ∈ flat.segments.map Segment.piece, piece.text.Plain := by
    intro piece hpiece
    obtain ⟨segment, hsegment, rfl⟩ := List.mem_map.1 hpiece
    exact (Segment.shown_piece (hvalid segment hsegment)).plain
  have htake := FlatDraft.takeAll?_segments [] flat
  rw [FlatRule.text_eq_written, FlatRule.read_written_eq_ok_iff hpieces]
  exact ⟨_, FlatDraft.acceptAll?_piece hvalid htake, rfl⟩

/-- The texts that are read are those that derive from a flat rule. A rule that is read is one that
the text derives from, and it is read back as it is written. -/
theorem accepts_iff_derives (t : Text) :
    (FlatRule.accepts t = true ↔ ∃ flat : FlatRule, flat.Derives t) ∧
      ∀ flat, FlatRule.read t = .ok flat →
        flat.Derives t ∧ FlatRule.read flat.text = .ok flat := by
  refine ⟨⟨fun h => ?_, ?_⟩, fun flat h => ?_⟩
  · obtain ⟨flat, hread⟩ := FlatRule.accepts_iff_exists.1 h
    exact ⟨flat, FlatRule.derives_of_read hread⟩
  · rintro ⟨flat, h⟩
    obtain ⟨flat', hread⟩ := FlatRule.exists_read_of_derives h
    exact FlatRule.accepts_iff_exists.2 ⟨flat', hread⟩
  · have hderives := FlatRule.derives_of_read h
    exact ⟨hderives, FlatRule.read_text_of_derives hderives⟩

end ScopedStyles
