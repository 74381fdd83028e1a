import ScopedStyles.Text.Basic

/-!
# Terminal control sequences

A control sequence is an escape character and an opening bracket, any number of parameter
characters, any number of intermediate characters, and one final character. It moves or colours what
a terminal shows and is no part of what is said, so it is left out where the output is not a
terminal. The three classes of characters lie next to each other and have none in common, so there
is one way only to read a control sequence.

## Main definitions

* `Text.afterControl?` — what follows a control sequence.
* `Text.withoutControls` — a text without its control sequences.
* `Text.HasControl` — whether there is one.
-/

namespace ScopedStyles.Text

/-- Whether a character is a parameter of a control sequence: a digit or one of `:;<=>?`. -/
def isControlParameter (c : Char) : Bool :=
  '0' ≤ c && c ≤ '?'

/-- Whether a character may stand between the parameters and the final character: a blank or one of
the marks up to the slash. -/
def isControlIntermediate (c : Char) : Bool :=
  ' ' ≤ c && c ≤ '/'

/-- Whether a character ends a control sequence: a letter, or one of the marks around the
letters. -/
def isControlFinal (c : Char) : Bool :=
  '@' ≤ c && c ≤ '~'

/-- What follows a control sequence whose escape character has been read. -/
def afterControl? : Text → Option Text
  | '[' :: rest =>
    match (rest.dropWhile isControlParameter).dropWhile isControlIntermediate with
    | [] => none
    | c :: after => if isControlFinal c then some after else none
  | _ => none

theorem length_afterControl? {t after : Text} (h : afterControl? t = some after) :
    after.length < t.length := by
  unfold afterControl? at h
  split at h
  · next rest =>
    split at h
    · simp at h
    · next c u hdrop =>
      split at h
      · obtain rfl := Option.some.inj h
        have hparameters := (List.dropWhile_sublist isControlParameter (l := rest)).length_le
        have hlength := (List.dropWhile_sublist isControlIntermediate
          (l := rest.dropWhile isControlParameter)).length_le
        simp only [hdrop, List.length_cons] at hlength ⊢
        omega
      · simp at h
  · simp at h

theorem isSuffix_afterControl? {t after : Text} (h : afterControl? t = some after) :
    after <:+ t := by
  unfold afterControl? at h
  split at h
  · next rest =>
    split at h
    · simp at h
    · next c u hdrop =>
      split at h
      · obtain rfl := Option.some.inj h
        have hdropped : c :: u <:+ rest.dropWhile isControlParameter :=
          hdrop ▸ List.dropWhile_suffix isControlIntermediate
        have hrest := hdropped.trans (List.dropWhile_suffix isControlParameter)
        exact (List.suffix_cons c u).trans (hrest.trans (List.suffix_cons '[' rest))
      · simp at h
  · simp at h

/-- A text without its control sequences. -/
def withoutControls : Text → Text
  | [] => []
  | c :: rest =>
    if c = '\x1b' then
      match h : afterControl? rest with
      | some after =>
        have := length_afterControl? h
        withoutControls after
      | none => c :: withoutControls rest
    else c :: withoutControls rest
termination_by t => t.length

/-- Whether there is a control sequence in a text. -/
def HasControl (t : Text) : Prop :=
  ∃ rest, '\x1b' :: rest <:+ t ∧ afterControl? rest ≠ none

theorem hasControl_cons_iff {c : Char} {t : Text} :
    HasControl (c :: t) ↔ c = '\x1b' ∧ afterControl? t ≠ none ∨ HasControl t := by
  constructor
  · rintro ⟨rest, hsuffix, hrest⟩
    rcases List.suffix_cons_iff.1 hsuffix with heq | hsuffix
    · obtain ⟨rfl, rfl⟩ := List.cons.inj heq
      exact .inl ⟨rfl, hrest⟩
    · exact .inr ⟨rest, hsuffix, hrest⟩
  · rintro (⟨rfl, hrest⟩ | ⟨rest, hsuffix, hrest⟩)
    · exact ⟨t, List.suffix_rfl, hrest⟩
    · exact ⟨rest, hsuffix.trans (List.suffix_cons c t), hrest⟩

theorem HasControl.escape_mem {t : Text} (h : t.HasControl) : '\x1b' ∈ t := by
  obtain ⟨rest, hsuffix, -⟩ := h
  exact hsuffix.subset List.mem_cons_self

theorem withoutControls_sublist (t : Text) : (withoutControls t).Sublist t := by
  fun_induction withoutControls with
  | case1 => exact List.Sublist.refl []
  | case2 rest after h _ ih =>
    exact ih.trans ((isSuffix_afterControl? h).sublist.trans (List.sublist_cons_self _ rest))
  | case3 rest _ ih => exact ih.cons_cons _
  | case4 c rest _ ih => exact ih.cons_cons c

/-- A text stays as it is exactly when there is no control sequence to leave out. -/
theorem withoutControls_eq_self_iff {t : Text} : withoutControls t = t ↔ ¬ HasControl t := by
  fun_induction withoutControls with
  | case1 => simp [HasControl]
  | case2 rest after h hlength ih =>
    have hshort := (withoutControls_sublist after).length_le
    have hne : withoutControls after ≠ '\x1b' :: rest := by
      intro heq
      rw [heq, List.length_cons] at hshort
      omega
    simp [hasControl_cons_iff, hne, h]
  | case3 rest h ih => simp [hasControl_cons_iff, ih, h]
  | case4 c rest hc ih => simp [hasControl_cons_iff, ih, hc]

end ScopedStyles.Text
