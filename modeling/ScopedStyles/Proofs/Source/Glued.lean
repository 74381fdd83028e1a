import ScopedStyles.Proofs.Source.Comment
import ScopedStyles.Proofs.Text.Comments

/-!
# Comments that come about

The comments of a source are left out and nothing is put in their place, so that a slash in front of
a comment and a star behind it come to stand next to each other. Of the blanks between a slash and a
star one is always kept. So the mark that opens a comment stands in what is read of a source exactly
if it still stands in the source without its comments.

## Main definitions

* `Source.texts` — the texts of the chunks of a source, and what follows the last of them.

## Main statements

* `Pending.texts_inside` — what is read in a comment is what is read behind it.
* `Source.opensComment_texts_iff` — when a comment is opened by what is read of a source.
-/

namespace ScopedStyles

namespace Pending

/-- The texts that end in a text, and what is pending at its end. -/
def texts (p : Pending) (t : Text) : List Text :=
  (p.chunks 0 none t).map Chunk.text ++ [(p.after none t).text]

variable {p : Pending}

theorem map_text_chunks (p : Pending) (offset : Nat) (t : Text) :
    (p.chunks offset none t).map Chunk.text = (p.chunks 0 none t).map Chunk.text := by
  rw [← Nat.add_zero offset, chunks_shift, List.map_map]
  rfl

@[simp] theorem texts_nil (p : Pending) : p.texts [] = [p.text] := rfl

theorem texts_cons_of_none {c : Char} (h : p.delimiter? c = none) (t : Text) :
    p.texts (c :: t) = (p.read c t.head?).texts t := by
  rw [texts, chunks, h, map_text_chunks, after, Option.or_none]
  rfl

/-- A delimiter ends a text. -/
theorem texts_cons_of_some {c : Char} {d : Delimiter} (h : p.delimiter? c = some d) (t : Text) :
    p.texts (c :: t) = p.text :: Pending.texts {} t := by
  rw [texts, chunks, h, after, read_of_delimiter? h, List.map_cons, map_text_chunks]
  rfl

/-! ## In a comment -/

/-- What is read in a comment is what is read behind it. -/
theorem texts_inside (tight : Bool) (gathered t : Text) :
    Pending.texts ⟨.inside, tight, gathered⟩ t =
      Pending.texts ⟨.outside, tight, gathered⟩ t.afterComment := by
  fun_induction Text.afterComment t with
  | case1 => rfl
  | case2 rest =>
    rw [texts_cons_of_none rfl, texts_cons_of_none rfl]
    rfl
  | case3 c rest hcloses ih =>
    have hstay : ¬ (c = '*' ∧ rest.head? = some '/') := by
      rintro ⟨rfl, hhead⟩
      obtain ⟨u, rfl⟩ := List.head?_eq_some_iff.1 hhead
      exact hcloses u rfl rfl
    rw [texts_cons_of_none rfl, read_inside tight gathered hstay, ih]

/-! ## Between a slash and a star -/

/-- If a blank behind a pending slash has been left out, then it was superfluous in front of what
follows. -/
def Parts (p : Pending) (t : Text) : Prop :=
  p.tight = true → p.gathered.head? = some '/' → t.head?.any drawsNear = true

theorem parts_of_tight_eq_false (h : p.tight = false) (t : Text) : p.Parts t :=
  fun htight => absurd htight (by simp [h])

theorem parts_of_head_ne (h : p.gathered.head? ≠ some '/') (t : Text) : p.Parts t :=
  fun _ hslash => absurd hslash h

/-- A blank behind a slash is kept, unless it is superfluous in front of what follows. -/
theorem Parts.drawsNear_of_not_keepsBlank {c : Char} {t : Text} (h : p.Parts (c :: t))
    (hc : c.isWhitespace = true) (hslash : p.gathered.head? = some '/')
    (hkeeps : p.keepsBlank t.head? = false) : t.head?.any drawsNear = true := by
  have htight : p.tight = false := by
    by_contra htight
    have hnear := h (by simpa using htight) hslash
    simp [drawsNear_of_isWhitespace hc] at hnear
  simpa [keepsBlank, htight, hslash] using hkeeps

theorem Parts.read_blank {c : Char} {t : Text} (h : p.Parts (c :: t))
    (hphase : p.phase = .outside) (hc : c.isWhitespace = true) :
    (p.read c t.head?).Parts t := by
  rw [read_of_isWhitespace hphase hc]
  cases hkeeps : p.keepsBlank t.head? with
  | true => exact parts_of_head_ne (by simp) t
  | false => exact fun _ hslash => h.drawsNear_of_not_keepsBlank hc hslash hkeeps

/-- A blank keeps a slash and a star apart. -/
theorem Parts.opensComment_read_blank {c : Char} {t w : Text} (h : p.Parts (c :: t))
    (hphase : p.phase = .outside) (hc : c.isWhitespace = true)
    (hw : t.head?.any drawsNear = true → w.head? ≠ some '*') :
    Text.OpensComment ((p.read c t.head?).text ++ w) ↔ Text.OpensComment (p.text ++ c :: w) := by
  have hslash : c ≠ '/' := by rintro rfl; cases hc
  have hstar : c ≠ '*' := by rintro rfl; cases hc
  rw [read_of_isWhitespace hphase hc, Text.opensComment_append_cons_iff hslash hstar]
  cases hkeeps : p.keepsBlank t.head? with
  | true =>
    have htext : text ⟨.outside, true, ' ' :: p.gathered⟩ ++ w = p.text ++ ' ' :: w := by
      simp [text]
    exact htext ▸ Text.opensComment_append_cons_iff (by decide) (by decide)
  | false =>
    have hapart : ¬ (p.text.getLast? = some '/' ∧ w.head? = some '*') := by
      rintro ⟨hlast, hhead⟩
      rw [text, List.getLast?_reverse] at hlast
      exact hw (h.drawsNear_of_not_keepsBlank hc hlast hkeeps) hhead
    have hiff : Text.OpensComment (p.text ++ w) ↔ _ := Text.opensComment_append_iff
    rw [or_iff_left hapart] at hiff
    exact hiff

/-- What draws near stays in front of a text when its comments are left out. -/
theorem head?_withoutComments_ne {t : Text} (h : t.head?.any drawsNear = true) :
    t.withoutComments.head? ≠ some '*' := by
  fun_cases Text.withoutComments t with
  | case1 => simp
  | case2 rest => cases h
  | case3 c rest _ =>
    rw [List.head?_cons, ne_eq, Option.some_inj]
    rintro rfl
    cases h

/-! ## Through a text -/

/-- A comment is opened by what is read of a text, or by what is pending in front of it, exactly if
it is opened by the pending text with the text behind it, comments left out. -/
theorem opensComment_texts_iff (hphase : p.phase = .outside) {t : Text} (h : p.Parts t) :
    (∃ text ∈ p.texts t, text.OpensComment) ↔
      Text.OpensComment (p.text ++ t.withoutComments) := by
  fun_induction Text.withoutComments t generalizing p with
  | case1 => simp
  | case2 rest hlength ih =>
    obtain ⟨_, tight, gathered⟩ := p
    obtain rfl := hphase
    have hread : Pending.texts ⟨.outside, tight, gathered⟩ ('/' :: '*' :: rest) =
        Pending.texts ⟨.outside, false, gathered⟩ (Text.afterComment rest) := by
      rw [texts_cons_of_none rfl, texts_cons_of_none rfl]
      exact texts_inside false gathered rest
    rw [hread]
    have hparts : Parts ⟨.outside, false, gathered⟩ (Text.afterComment rest) :=
      parts_of_tight_eq_false rfl _
    exact ih rfl hparts
  | case3 c rest hopens ih =>
    have hcomment : ¬ (c = '/' ∧ rest.head? = some '*') := by
      rintro ⟨rfl, hhead⟩
      obtain ⟨u, rfl⟩ := List.head?_eq_some_iff.1 hhead
      exact hopens u rfl rfl
    cases hdelimiter : p.delimiter? c with
    | some d =>
      have hc : c ≠ '/' ∧ c ≠ '*' := by
        simp only [delimiter?, hphase, if_true] at hdelimiter
        obtain rfl := Delimiter.ofChar?_eq_some_iff.1 hdelimiter
        cases d <;> decide
      have hrest := ih (p := {}) rfl (parts_of_head_ne (by simp) rest)
      rw [texts_cons_of_some hdelimiter, Text.opensComment_append_cons_iff hc.1 hc.2,
        List.exists_mem_cons_iff, hrest]
      rfl
    | none =>
      rw [texts_cons_of_none hdelimiter]
      by_cases hblank : c.isWhitespace = true
      · have houtside : (p.read c rest.head?).phase = .outside := by
          rw [read_of_isWhitespace hphase hblank]
        rw [ih houtside (h.read_blank hphase hblank)]
        exact h.opensComment_read_blank hphase hblank head?_withoutComments_ne
      · have hread : p.read c rest.head? = ⟨.outside, c = ':', c :: p.gathered⟩ := by
          have hnone : Delimiter.ofChar? c = none := by simpa [delimiter?, hphase] using hdelimiter
          simp [read, hphase, hcomment, hblank, hnone]
        have hparts : Parts ⟨.outside, c = ':', c :: p.gathered⟩ rest := by
          intro hcolon hslash
          simp_all
        rw [hread, ih rfl hparts]
        simp [text]

end Pending

/-- The texts of the chunks of a source, and what follows the last of them. -/
def Source.texts (source : Text) : List Text :=
  (chunks source).map Chunk.text ++ [remainder source]

/-- A comment is opened by what is read of a source exactly if leaving out the comments of the
source leaves a mark that opens one. -/
theorem Source.opensComment_texts_iff {source : Text} :
    (∃ text ∈ texts source, text.OpensComment) ↔ source.withoutComments.OpensComment :=
  Pending.opensComment_texts_iff rfl (Pending.parts_of_head_ne (by simp) source)

end ScopedStyles
