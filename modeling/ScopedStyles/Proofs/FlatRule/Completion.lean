import ScopedStyles.Proofs.FlatRule.Recognition

/-!
# Completing a flat rule

Whatever has been read of a flat rule, a rule can be made of it: the part that has been begun can be
ended, and the blocks that are open can be closed.

## Main definitions

* `FlatDraft.Completes` — a text completes a rule, from a draft on.

## Main statements

* `FlatRule.accepts_iff_completes` — the texts that are read complete a rule from the beginning on.
* `FlatDraft.exists_completes` — every draft can be completed.
* `FlatDraft.exists_completes_append` — so can every part, as soon as some of it has been read.
-/

namespace ScopedStyles

/-- Two texts that start with a piece start with the same one. -/
theorem Piece.written_append_inj {a b : Piece} {s t : Text} (ha : a.text.Plain) (hb : b.text.Plain)
    (h : a.written ++ s = b.written ++ t) : a = b ∧ s = t := by
  obtain ⟨textA, delimiterA⟩ := a
  obtain ⟨textB, delimiterB⟩ := b
  -- Cutting a text at its first delimiter gives its first piece.
  have hcut := congrArg (Chunk.cutFrom [] 0) h
  rw [Chunk.cutFrom_written ha, Chunk.cutFrom_written hb] at hcut
  obtain ⟨hfirst, -⟩ := List.cons.inj hcut
  obtain ⟨rfl, rfl, -⟩ := Chunk.mk.inj hfirst
  exact ⟨rfl, List.append_cancel_left h⟩

/-- A piece holds a character that is not ignored. -/
theorem Piece.not_ignored_written_append (piece : Piece) (t : Text) :
    ¬ Text.Ignored (piece.written ++ t) := by
  intro h
  have hdelimiter := h.plain piece.delimiter.char (by simp [written])
  simp at hdelimiter

/-! ## Texts that complete a rule -/

namespace FlatDraft

/-- A text completes a rule, from a draft on: its pieces are accepted one after the other, and
behind the last of them stands nothing but what is ignored. -/
inductive Completes : FlatDraft → Text → Prop
  | rest {d : FlatDraft} {flat : FlatRule} {t : Text} (hcomplete : d.expected = .nothing flat)
      (ht : t.Ignored) : Completes d t
  | piece {d next : FlatDraft} (piece : Piece) {t : Text} (hpiece : piece.text.Plain)
      (haccept : d.accept? piece = some next) (h : Completes next t) :
      Completes d (piece.written ++ t)

variable {d d' : FlatDraft} {t : Text}

theorem completes_plain_iff (ht : t.Plain) :
    d.Completes t ↔ (∃ flat, d.expected = .nothing flat) ∧ t.Ignored := by
  constructor
  · intro h
    cases h with
    | rest hcomplete hignored => exact ⟨⟨_, hcomplete⟩, hignored⟩
    | piece piece =>
      have hdelimiter := ht piece.delimiter.char (by simp [Piece.written])
      simp at hdelimiter
  · rintro ⟨⟨flat, hcomplete⟩, hignored⟩
    exact .rest hcomplete hignored

theorem completes_written_iff {piece : Piece} (hpiece : piece.text.Plain) :
    d.Completes (piece.written ++ t) ↔ ∃ next, d.accept? piece = some next ∧ next.Completes t := by
  constructor
  · intro h
    generalize hs : piece.written ++ t = s at h
    cases h with
    | rest _ hignored => exact absurd (hs ▸ hignored) (piece.not_ignored_written_append t)
    | piece first hfirst haccept h =>
      obtain ⟨rfl, rfl⟩ := Piece.written_append_inj hpiece hfirst hs
      exact ⟨_, haccept, h⟩
  · rintro ⟨next, haccept, h⟩
    exact .piece piece hpiece haccept h

theorem completes_append_iff {pieces : List Piece} (hpieces : ∀ piece ∈ pieces, piece.text.Plain) :
    d.Completes (pieces.flatMap Piece.written ++ t) ↔
      ∃ d', d.acceptAll? pieces = some d' ∧ d'.Completes t := by
  induction pieces generalizing d with
  | nil => simp
  | cons piece pieces ih =>
    obtain ⟨hpiece, hpieces⟩ := List.forall_mem_cons.1 hpieces
    rw [List.flatMap_cons, List.append_assoc, completes_written_iff hpiece, acceptAll?_cons]
    cases d.accept? piece with
    | none => simp
    | some next => simpa using ih hpieces

end FlatDraft

/-- The texts that are read complete a rule from the beginning on. -/
theorem FlatRule.accepts_iff_completes {t : Text} :
    FlatRule.accepts t = true ↔ FlatDraft.Completes {} t := by
  obtain ⟨pieces, rest, rfl, hpieces, hrest⟩ := exists_pieces t
  rw [accepts_iff_exists, FlatDraft.completes_append_iff hpieces]
  simp only [read_append_eq_ok_iff hpieces hrest, FlatDraft.completes_plain_iff hrest,
    Part.skip_eq_nil_iff]
  constructor
  · rintro ⟨flat, d, haccept, hcomplete, hignored⟩
    exact ⟨d, haccept, ⟨flat, hcomplete⟩, hignored⟩
  · rintro ⟨d, haccept, ⟨flat, hcomplete⟩, hignored⟩
    exact ⟨flat, d, haccept, hcomplete, hignored⟩

/-! ## Every draft can be completed -/

namespace FlatDraft

variable {d : FlatDraft} {t : Text}

/-- Behind a rule that stands in groups, these can be closed. -/
theorem exists_completes_complete (rule : FlatRule) (groups : List OpenFlatGroup) :
    ∃ t, (complete rule groups).Completes t := by
  induction groups generalizing rule with
  | nil => exact ⟨[], .rest rfl Text.ignored_nil⟩
  | cons group groups ih =>
    obtain ⟨t, ht⟩ := ih (.group group.type group.query (group.rules ++ [rule]))
    exact ⟨_, .piece ⟨[], .closeBrace⟩ Text.plain_nil rfl ht⟩

/-- Every draft can be completed. -/
theorem exists_completes (d : FlatDraft) : ∃ t, d.Completes t := by
  obtain ⟨expected, groups⟩ := d
  have hplain : Text.Plain ['x'] := by decide
  have hclose : Text.Plain [] := Text.plain_nil
  -- A style rule in a group is closed by one brace, and a step by one more.
  have hstyle (rule : StyleRule) : ∃ t, Completes ⟨.declaration rule none, groups⟩ t := by
    obtain ⟨t, ht⟩ := exists_completes_complete (.style rule) groups
    exact ⟨_, .piece ⟨[], .closeBrace⟩ hclose rfl ht⟩
  have hstep (name : Text) (steps : List StyleRule) :
      ∃ t, Completes ⟨.step name steps, groups⟩ t := by
    obtain ⟨t, ht⟩ := exists_completes_complete (.keyframes name steps) groups
    exact ⟨_, .piece ⟨[], .closeBrace⟩ hclose rfl ht⟩
  cases expected with
  | rule =>
    obtain ⟨t, ht⟩ := hstyle ⟨['x'], []⟩
    exact ⟨_, .piece ⟨['x'], .openBrace⟩ hplain rfl ht⟩
  | step name steps => exact hstep name steps
  | declaration rule animation =>
    cases animation with
    | none => exact hstyle rule
    | some animation =>
      obtain ⟨name, steps⟩ := animation
      obtain ⟨t, ht⟩ := hstep name (steps ++ [rule])
      exact ⟨_, .piece ⟨[], .closeBrace⟩ hclose rfl ht⟩
  | nothing flat => exact ⟨[], .rest rfl Text.ignored_nil⟩

end FlatDraft

/-! ## Parts that have been begun -/

namespace Part

variable {part : Part} {t : Text}

theorem step_eq_ok (h : step t = .ok part) :
    part = .blank ∨ ∃ selector, part = .style selector := by
  unfold step at h
  split at h
  · exact .inl (Except.ok.inj h).symm
  · split at h
    · cases h
    · exact .inr ⟨_, (Except.ok.inj h).symm⟩

/-- A name that is missing can be added. -/
theorem name_append_of_incomplete (h : name t = .ok .incomplete) :
    name (t ++ ['x']) = .ok (.keyframes ['x']) := by
  have hignored : t.Ignored := by
    unfold name at h
    split at h
    · split at h
      · next hskip => exact skip_eq_nil_iff.1 hskip
      · cases h
    · split at h <;> cases h
  have hx : Terminal.name.Matches ['x'] := ⟨by decide, by simp⟩
  exact name_append hignored Text.ignored_nil hx

/-- A query that is missing can be added. -/
theorem query_append_of_incomplete {type : GroupType} (h : query type t = .ok .incomplete) :
    query type (t ++ ['x']) = .ok (.group type ['x']) := by
  have hignored : t.Ignored := by
    unfold query at h
    split at h
    · next hskip => exact skip_eq_nil_iff.1 hskip
    · split at h <;> cases h
  have hx : Terminal.query.Matches ['x'] := ⟨by decide, by simp⟩
  exact query_append hignored type hx []

/-- A keyword is read where it stands behind what is ignored. -/
theorem head_append_of_skip_eq {keyword rest : Text} (h : skip t = keyword ++ rest) (more : Text) :
    head (t ++ more) = head (keyword ++ (rest ++ more)) := by
  obtain ⟨gap, heq, hgap⟩ := exists_eq_append_skip t
  have hsplit : t ++ more = gap ++ (keyword ++ (rest ++ more)) := by
    rw [← List.append_assoc keyword, ← h, ← List.append_assoc, ← heq]
  rw [hsplit]
  exact Expected.part_append hgap .rule _

/-- An animation without its name, or a group without its query, is given one. -/
theorem head_append_of_incomplete (h : head t = .ok .incomplete) :
    head (t ++ ['x']) = .ok (.keyframes ['x']) ∨
      ∃ type, head (t ++ ['x']) = .ok (.group type ['x']) := by
  rcases head_cases t with ⟨rest, hskip, hread⟩ | ⟨type, rest, hskip, hread⟩ | hread
  · rw [head_append_of_skip_eq hskip, head_keyframes]
    exact .inl (name_append_of_incomplete (hread ▸ h))
  · rw [head_append_of_skip_eq hskip, head_group]
    exact .inr ⟨type, query_append_of_incomplete (hread ▸ h)⟩
  · rcases step_eq_ok (hread ▸ h) with hblank | ⟨selector, hstyle⟩
    · cases hblank
    · cases hstyle

/-- A declaration without its value, or without the colon too, is given both. -/
theorem declaration_append_of_incomplete (h : declaration t = .ok .incomplete) :
    ∃ property value, declaration (t ++ [':', 'x']) = .ok (.declared property value) := by
  obtain ⟨gap, heq, hgap⟩ := exists_eq_append_skip t
  unfold declaration at h
  split at h
  · cases h
  · next c rest hskip =>
    split at h
    · cases h
    · next hfirst =>
      simp only [Bool.or_eq_true, decide_eq_true_eq, not_or, Bool.not_eq_true] at hfirst
      obtain ⟨⟨hat, hne⟩, hblank⟩ := hfirst
      -- Without a colon, all of the text is the property; else the value gets the added colon.
      obtain ⟨property, value, hsplit, hcolon, hvalue⟩ : ∃ property value : Text,
          c :: rest ++ [':', 'x'] = property ++ ':' :: value ∧ ':' ∉ property ∧ value ≠ [] := by
        split at h
        · next hcut => exact ⟨c :: rest, ['x'], rfl, Text.cutAt?_eq_none_iff.1 hcut, by simp⟩
        · next property hcut =>
          obtain ⟨hproperty, hcolon⟩ := Text.cutAt?_eq_some_iff.1 hcut
          exact ⟨property, [':', 'x'], by simp [hproperty], hcolon, by simp⟩
        · cases h
      obtain ⟨others, rfl⟩ : ∃ others, property = c :: others := by
        cases property with
        | nil => exact absurd (List.cons.inj hsplit).1 hne
        | cons d others => exact ⟨others, by rw [(List.cons.inj hsplit).1]⟩
      have hread : declaration (c :: others ++ ':' :: value) = _ :=
        declaration_append (by simpa using hblank) (by simp) hcolon hvalue
      rw [List.head?_cons, if_neg (by simpa using hat)] at hread
      refine ⟨c :: others, value, ?_⟩
      rw [heq, hskip, List.append_assoc, hsplit]
      exact (Expected.part_append hgap (.declaration ⟨[], []⟩ none) _).trans hread

end Part

namespace Expected

variable {expected : Expected} {part : Part} {t : Text}

/-- What is read is a part that may stand where it stands, or needs more before any delimiter. -/
theorem allows_of_part (ht : t.Plain) (h : expected.part t = .ok part)
    (hpart : part ≠ .incomplete) : expected.Allows part := by
  cases expected with
  | rule =>
    rw [Expected.part] at h
    rcases Part.head_cases t with ⟨rest, hskip, hread⟩ | ⟨type, rest, hskip, hread⟩ | hread
    · have hrest := Part.plain_of_skip_eq ht hskip.symm
      obtain ⟨name, rfl, -⟩ := Part.spread_of_name hrest (hread ▸ h) hpart
      exact .keyframes name
    · have hrest := Part.plain_of_skip_eq ht hskip.symm
      obtain ⟨query, rfl, -⟩ := Part.spread_of_query hrest (hread ▸ h) hpart
      exact .group type query
    · rcases Part.step_eq_ok (hread ▸ h) with rfl | ⟨selector, rfl⟩
      · exact .blank .rule
      · exact .style selector
  | step name steps =>
    rcases Part.step_eq_ok h with rfl | ⟨selector, rfl⟩
    · exact .blank _
    · exact .step name steps selector
  | declaration rule animation =>
    rw [Expected.part, Part.declaration] at h
    split at h
    · cases h
      exact .blank _
    · split at h
      · cases h
      · split at h
        · cases h
          contradiction
        · cases h
          contradiction
        · cases h
          exact .declared rule animation _ _
  | nothing flat =>
    rw [Expected.part, Part.nothing] at h
    split at h
    · cases h
      exact .blank _
    · cases h

end Expected

namespace FlatDraft

variable {d : FlatDraft} {part : Part} {t : Text}

/-- A part that has been read up to any place can be ended so that it is taken. -/
theorem exists_accept?_append (ht : t.Plain) (h : d.expected.part t = .ok part)
    (hopen : ∀ flat, d.expected ≠ .nothing flat) :
    ∃ (more : Text) (delimiter : Delimiter) (next : FlatDraft), more.Plain ∧
      d.accept? ⟨t ++ more, delimiter⟩ = some next := by
  obtain ⟨expected, groups⟩ := d
  have htake {more : Text} {part : Part} {delimiter : Delimiter} {next : FlatDraft}
      (hread : expected.part (t ++ more) = .ok part)
      (hnext : take ⟨expected, groups⟩ part delimiter = some next) :
      accept? ⟨expected, groups⟩ ⟨t ++ more, delimiter⟩ = some next := by
    rw [accept?, hread]
    exact hnext
  have hsame : expected.part (t ++ []) = .ok part := by rwa [List.append_nil]
  by_cases hpart : part = .incomplete
  · subst hpart
    cases expected with
    | rule =>
      rcases Part.head_append_of_incomplete h with hread | ⟨type, hread⟩
      · exact ⟨['x'], .openBrace, _, by decide, htake hread rfl⟩
      · exact ⟨['x'], .openBrace, _, by decide, htake hread rfl⟩
    | step name steps =>
      rcases Part.step_eq_ok h with hblank | ⟨selector, hstyle⟩
      · cases hblank
      · cases hstyle
    | declaration rule animation =>
      obtain ⟨property, value, hread⟩ := Part.declaration_append_of_incomplete h
      exact ⟨[':', 'x'], .semicolon, _, by decide, htake hread rfl⟩
    | nothing flat => exact absurd rfl (hopen flat)
  · cases Expected.allows_of_part ht h hpart with
    | blank =>
      cases expected with
      | rule =>
        have hignored := spread_nil_iff.1 (Expected.spread_of_part ht h hpart)
        have hread : Part.head (t ++ ['x']) = .ok (.style ['x']) :=
          (Expected.part_append hignored .rule ['x']).trans rfl
        exact ⟨['x'], .openBrace, _, by decide, htake hread rfl⟩
      | step name steps => exact ⟨[], .closeBrace, _, Text.plain_nil, htake hsame rfl⟩
      | declaration rule animation =>
        cases animation with
        | none => exact ⟨[], .closeBrace, _, Text.plain_nil, htake hsame rfl⟩
        | some animation => exact ⟨[], .closeBrace, _, Text.plain_nil, htake hsame rfl⟩
      | nothing flat => exact absurd rfl (hopen flat)
    | style | keyframes | group | step =>
      exact ⟨[], .openBrace, _, Text.plain_nil, htake hsame rfl⟩
    | declared => exact ⟨[], .semicolon, _, Text.plain_nil, htake hsame rfl⟩

/-- A part that has been read up to any place can be ended, and then a rule be completed. -/
theorem exists_completes_append (ht : t.Plain) (h : d.expected.part t = .ok part) :
    ∃ more, d.Completes (t ++ more) := by
  by_cases hcomplete : ∃ flat, d.expected = .nothing flat
  · obtain ⟨flat, hflat⟩ := hcomplete
    refine ⟨[], .rest hflat ?_⟩
    rw [hflat, Expected.part, Part.nothing] at h
    split at h
    · next hskip => rwa [List.append_nil, ← Part.skip_eq_nil_iff]
    · cases h
  · obtain ⟨more, delimiter, next, hmore, haccept⟩ :=
      exists_accept?_append ht h fun flat hflat => hcomplete ⟨flat, hflat⟩
    obtain ⟨u, hu⟩ := next.exists_completes
    have hpiece : Text.Plain (t ++ more) := Text.plain_append_iff.2 ⟨ht, hmore⟩
    refine ⟨more ++ [delimiter.char] ++ u, ?_⟩
    have hwritten : t ++ (more ++ [delimiter.char] ++ u) =
        Piece.written ⟨t ++ more, delimiter⟩ ++ u := by simp [Piece.written]
    exact hwritten ▸ .piece _ hpiece haccept hu

end FlatDraft

end ScopedStyles
