import ScopedStyles.Proofs.FlatRule.Completion

/-!
# What is handed back of a part

A part that is not read to its end hands back the text from the first character that may not stand
where it stands. What is in front of that character is read as a part, and no text that goes on with
it is. Only an at sign may still begin a keyword: it is handed back because the keyword does not
follow.

## Main definitions

* `Part.Stops` — where the reading of a part stops.
* `Part.HandsBack` — a text is handed back from where the reading of a part stops.

## Main statements

* `Expected.handsBack` — what is handed back of a part starts where its reading stops.
-/

namespace ScopedStyles

namespace Part

/-- A reader reads a text, and refuses it if a certain character follows. -/
structure Stops (read : Text → Except Text Part) (before : Text) (c : Char) : Prop where
  reads : ∃ part, read before = .ok part
  refuses : c ≠ '@' → ∀ more, read (before ++ c :: more) = .error (c :: more)

/-- What is handed back of a text starts where the reading of the text stops. -/
def HandsBack (read : Text → Except Text Part) (t unread : Text) : Prop :=
  ∃ before c after, t = before ++ c :: after ∧ unread = c :: after ∧ Stops read before c

variable {t rest unread : Text} {c : Char} {read : Text → Except Text Part}

/-- What is ignored in front of a text ends at a character that is not. -/
theorem exists_of_skip_eq_cons (h : skip t = c :: rest) :
    ∃ gap : Text, t = gap ++ c :: rest ∧ gap.Ignored ∧
      ∀ more, skip (gap ++ c :: more) = c :: more := by
  obtain ⟨gap, heq, hgap⟩ := exists_eq_append_skip t
  have hc : isIgnored c = false := by
    have hhead := List.head?_dropWhile_not isIgnored t
    rw [← skip, h] at hhead
    simpa using hhead
  refine ⟨gap, h ▸ heq, hgap, fun more => ?_⟩
  rw [skip_append hgap, skip]
  simp [hc]

/-- The first character that is not ignored is handed back by a reader that refuses it whatever
follows. -/
theorem handsBack_of_skip (hskip : skip t = c :: rest)
    (hreads : ∀ gap : Text, gap.Ignored → ∃ part, read gap = .ok part)
    (hrefuses : c ≠ '@' → ∀ s more, skip s = c :: more → read s = .error (c :: more)) :
    HandsBack read t (c :: rest) := by
  obtain ⟨gap, rfl, hgap, hmore⟩ := exists_of_skip_eq_cons hskip
  exact ⟨gap, c, rest, rfl, rfl, hreads gap hgap, fun hat more => hrefuses hat _ more (hmore more)⟩

theorem handsBack_nothing (h : nothing t = .error unread) : HandsBack nothing t unread := by
  unfold nothing at h
  split at h
  · cases h
  · next hne =>
    obtain rfl := Except.error.inj h
    obtain ⟨c, rest, hskip⟩ := List.exists_cons_of_ne_nil hne
    rw [hskip]
    refine handsBack_of_skip hskip (fun gap hgap => ⟨.blank, ?_⟩) fun _ s more hs => ?_
    · rw [nothing, skip_eq_nil_iff.2 hgap]
    · rw [nothing, hs]

/-- Where a selector is refused, its first character is. -/
theorem step_eq_error (h : step t = .error unread) :
    ∃ c rest, skip t = c :: rest ∧ unread = c :: rest ∧
      ∀ s more, skip s = c :: more → step s = .error (c :: more) := by
  unfold step at h
  split at h
  · cases h
  · next c rest hskip =>
    split at h
    · next hfirst =>
      refine ⟨c, rest, hskip, (Except.error.inj h).symm, fun s more hs => ?_⟩
      simp [step, hs, hfirst]
    · cases h

theorem handsBack_step (h : step t = .error unread) : HandsBack step t unread := by
  obtain ⟨c, rest, hskip, rfl, hrefuses⟩ := step_eq_error h
  refine handsBack_of_skip hskip (fun gap hgap => ⟨.blank, ?_⟩) fun _ => hrefuses
  rw [step, skip_eq_nil_iff.2 hgap]

theorem handsBack_query {type : GroupType} (h : query type t = .error unread) :
    HandsBack (query type) t unread := by
  unfold query at h
  split at h
  · cases h
  · next c rest hskip =>
    split at h
    · next hblank =>
      obtain rfl := Except.error.inj h
      refine handsBack_of_skip hskip (fun gap hgap => ⟨.incomplete, ?_⟩) fun _ s more hs => ?_
      · rw [query, skip_eq_nil_iff.2 hgap]
      · simp [query, hs, hblank]
    · cases h

theorem handsBack_declaration (h : declaration t = .error unread) :
    HandsBack declaration t unread := by
  unfold declaration at h
  split at h
  · cases h
  · next c rest hskip =>
    split at h
    · next hfirst =>
      obtain rfl := Except.error.inj h
      refine handsBack_of_skip hskip (fun gap hgap => ⟨.blank, ?_⟩) fun _ s more hs => ?_
      · rw [declaration, skip_eq_nil_iff.2 hgap]
      · simp [declaration, hs, hfirst]
    · split at h <;> cases h

theorem handsBack_name (h : name t = .error unread) : HandsBack name t unread := by
  unfold name at h
  split at h
  · next hnil =>
    split at h
    · cases h
    · next hne =>
      -- The first character is a blank that is not ignored.
      obtain rfl := Except.error.inj h
      obtain ⟨c, rest, hskip⟩ := List.exists_cons_of_ne_nil hne
      have hblank : Text.isBlank c = true := by
        rw [hskip] at hnil
        by_contra hc
        simp [hc] at hnil
      rw [hskip]
      refine handsBack_of_skip hskip (fun gap hgap => ⟨.incomplete, ?_⟩) fun _ s more hs => ?_
      · simp [name, skip_eq_nil_iff.2 hgap]
      · simp [name, hs, hblank]
  · next hne =>
    split at h
    · cases h
    · next hafter =>
      obtain rfl := Except.error.inj h
      obtain ⟨gap, heq, hgap⟩ := exists_eq_append_skip t
      obtain ⟨c, rest, hskip⟩ := List.exists_cons_of_ne_nil hafter
      obtain ⟨gap', hu, hgap', hmore⟩ := exists_of_skip_eq_cons hskip
      have hname : ∀ d ∈ (skip t).takeWhile (!Text.isBlank ·), Text.isBlank d = false := by
        intro d hd
        simpa using List.all_eq_true.1 List.all_takeWhile d hd
      -- What follows the name starts with a blank, whether that is ignored or not.
      have hblank (more : Text) : ∀ d ∈ (gap' ++ c :: more).head?, Text.isBlank d = true := by
        intro d hd
        have hhead : (gap' ++ c :: more).head? = (gap' ++ c :: rest).head? := by cases gap' <;> rfl
        have hstop := List.head?_dropWhile_not (!Text.isBlank ·) (skip t)
        rw [hhead, ← hu] at hd
        rw [hd] at hstop
        simpa using hstop
      have hsplit : skip t = (skip t).takeWhile (!Text.isBlank ·) ++ (gap' ++ c :: rest) := by
        rw [← hu, List.takeWhile_append_dropWhile]
      generalize (skip t).takeWhile (!Text.isBlank ·) = n at hne hname hsplit
      refine ⟨gap ++ (n ++ gap'), c, rest, ?_, hskip, ⟨.keyframes n, ?_⟩, fun _ more => ?_⟩
      · rw [List.append_assoc, List.append_assoc, ← hsplit, ← heq]
      · have hend : ∀ d ∈ gap'.head?, Text.isBlank d = true := fun d hd =>
          isBlank_of_isIgnored (hgap' d (List.mem_of_mem_head? hd))
        rw [name_eq hgap hne hname hend, skip_eq_nil_iff.2 hgap']
      · rw [List.append_assoc, List.append_assoc, name_eq hgap hne hname (hblank more), hmore]

/-- Behind a keyword, what is handed back is handed back of the whole text. -/
theorem HandsBack.keyword {keyword : Text} (hhead : ∀ t, head (keyword ++ t) = read t)
    (hskip : skip t = keyword ++ rest) (h : HandsBack read rest unread) :
    HandsBack head t unread := by
  obtain ⟨gap, heq, hgap⟩ := exists_eq_append_skip t
  obtain ⟨before, c, after, rfl, rfl, ⟨part, hread⟩, hrefuses⟩ := h
  have hall (s : Text) : head (gap ++ (keyword ++ s)) = read s :=
    (Expected.part_append hgap .rule _).trans (hhead s)
  refine ⟨gap ++ (keyword ++ before), c, after, ?_, rfl, ⟨part, ?_⟩, fun hat more => ?_⟩
  · rw [List.append_assoc, List.append_assoc, ← hskip, ← heq]
  · rw [hall, hread]
  · rw [List.append_assoc, List.append_assoc, hall, hrefuses hat]

theorem handsBack_head (h : head t = .error unread) : HandsBack head t unread := by
  rcases head_cases t with ⟨rest, hskip, hread⟩ | ⟨type, rest, hskip, hread⟩ | hread
  · exact (handsBack_name (hread ▸ h)).keyword head_keyframes hskip
  · exact (handsBack_query (hread ▸ h)).keyword (head_group type) hskip
  · obtain ⟨c, rest, hskip, rfl, hrefuses⟩ := step_eq_error (hread ▸ h)
    refine handsBack_of_skip hskip (fun gap hgap => ⟨.blank, ?_⟩) fun hat s more hs => ?_
    · exact Expected.part_ignored .rule hgap
    · have hhead : (skip s).head? ≠ some '@' := by simpa [hs] using hat
      rw [head_eq_step hhead, hrefuses s more hs]

end Part

theorem Expected.handsBack {expected : Expected} {t unread : Text}
    (h : expected.part t = .error unread) : Part.HandsBack expected.part t unread := by
  cases expected with
  | rule => exact Part.handsBack_head h
  | step => exact Part.handsBack_step h
  | declaration => exact Part.handsBack_declaration h
  | nothing => exact Part.handsBack_nothing h

end ScopedStyles
