import ScopedStyles.Proofs.Text.Trim

/-!
# Pieces and words

A text is cut at some of its characters, and no piece holds any of those. Words are the pieces that
blanks keep apart, so a text that is put together from words gives them back.

## Main definitions

* `Text.IsWord` — a text that is a word.

## Main statements

* `Text.isInfix_of_mem_splitOnP`, `Text.not_of_mem_splitOnP` — the pieces of a text that is cut.
* `Text.isWord_of_mem_words` — the words of a text are words.
* `Text.words_intercalate` — words with spaces between them.
* `Text.words_eq_of_trim` — a word with blanks around it.
-/

namespace ScopedStyles.Text

/-- A text that is a word: it is not empty and holds no blank. -/
structure IsWord (w : Text) : Prop where
  ne_nil : w ≠ []
  not_blank : ∀ c ∈ w, isBlank c = false

instance (w : Text) : Decidable w.IsWord :=
  have : Decidable (∀ c ∈ w, isBlank c = false) := List.decidableBAll _ w
  decidable_of_iff (w ≠ [] ∧ ∀ c ∈ w, isBlank c = false)
    ⟨fun h => ⟨h.1, h.2⟩, fun h => ⟨h.ne_nil, h.not_blank⟩⟩

/-- A piece that is cut off first is cut off at the start. -/
theorem isPrefix_of_splitOnP_eq_cons {p : Char → Bool} {t first : Text} {rest : List Text}
    (h : t.splitOnP p = first :: rest) : first <+: t := by
  induction t generalizing first rest with
  | nil =>
    obtain ⟨rfl, -⟩ : [] = first ∧ _ := by simpa using h
    exact List.prefix_rfl
  | cons d t ih =>
    rw [List.splitOnP_cons_eq_if_modifyHead] at h
    split at h
    · obtain ⟨rfl, -⟩ := List.cons.inj h
      exact List.nil_prefix
    · cases hsplit : t.splitOnP p with
      | nil => exact absurd hsplit (List.splitOnP_ne_nil p t)
      | cons piece pieces =>
        rw [hsplit, List.modifyHead_cons] at h
        obtain ⟨rfl, -⟩ := List.cons.inj h
        exact (List.prefix_cons_inj d).2 (ih hsplit)

/-- One more character in front makes a piece of its own, or belongs to the first piece. -/
theorem mem_splitOnP_cons {p : Char → Bool} {d : Char} {t piece : Text}
    (h : piece ∈ (d :: t).splitOnP p) :
    piece = [] ∨ piece ∈ t.splitOnP p ∨
      p d = false ∧ ∃ first ∈ (t.splitOnP p).head?, piece = d :: first := by
  rw [List.splitOnP_cons_eq_if_modifyHead] at h
  split at h
  · exact (List.mem_cons.1 h).imp_right .inl
  · next hd =>
    obtain ⟨first, rest, hsplit⟩ := List.exists_cons_of_ne_nil (List.splitOnP_ne_nil p t)
    rw [hsplit, List.modifyHead_cons] at h
    rw [hsplit]
    rcases List.mem_cons.1 h with rfl | h
    · exact .inr (.inr ⟨by simpa using hd, first, rfl, rfl⟩)
    · exact .inr (.inl (List.mem_cons_of_mem first h))

theorem isInfix_of_mem_splitOnP {p : Char → Bool} {t piece : Text} (h : piece ∈ t.splitOnP p) :
    piece <:+: t := by
  induction t generalizing piece with
  | nil =>
    obtain rfl : piece = [] := by simpa using h
    exact List.infix_rfl
  | cons d t ih =>
    rcases mem_splitOnP_cons h with rfl | h | ⟨-, first, hfirst, rfl⟩
    · exact List.nil_infix
    · exact (ih h).trans (List.suffix_cons d t).isInfix
    · obtain ⟨rest, hsplit⟩ := List.head?_eq_some_iff.1 hfirst
      exact ((List.prefix_cons_inj d).2 (isPrefix_of_splitOnP_eq_cons hsplit)).isInfix

/-- No piece holds the characters at which the text is cut. -/
theorem not_of_mem_splitOnP {p : Char → Bool} {t piece : Text} (h : piece ∈ t.splitOnP p) :
    ∀ c ∈ piece, p c = false := by
  induction t generalizing piece with
  | nil =>
    obtain rfl : piece = [] := by simpa using h
    simp
  | cons d t ih =>
    rcases mem_splitOnP_cons h with rfl | h | ⟨hd, first, hfirst, rfl⟩
    · simp
    · exact ih h
    · exact List.forall_mem_cons.2 ⟨hd, ih (List.mem_of_mem_head? hfirst)⟩

theorem not_mem_of_mem_splitOn {d : Char} {t piece : Text} (h : piece ∈ t.splitOn d) :
    d ∉ piece := by
  intro hd
  rw [List.splitOn_eq_splitOnP] at h
  simpa using not_of_mem_splitOnP h d hd

theorem isInfix_of_mem_words {t word : Text} (h : word ∈ t.words) : word <:+: t :=
  isInfix_of_mem_splitOnP (List.mem_filter.1 h).1

theorem isWord_of_mem_words {t word : Text} (h : word ∈ words t) : IsWord word where
  ne_nil := ne_nil_of_mem_words h
  not_blank := not_of_mem_splitOnP (List.mem_filter.1 h).1

/-- A blank keeps the words before it from those after it. -/
theorem words_append_cons {c : Char} (hc : isBlank c = true) (a b : Text) :
    words (a ++ c :: b) = words a ++ words b := by
  rw [words, List.splitOnP_append_cons a b hc, List.filter_append]
  rfl

theorem IsWord.words_eq {w : Text} (h : w.IsWord) : words w = [w] := by
  rw [words, List.splitOnP_eq_singleton h.not_blank]
  simp [h.ne_nil]

theorem words_intercalate {ws : List Text} (h : ∀ w ∈ ws, IsWord w) :
    words ([' '].intercalate ws) = ws := by
  induction ws with
  | nil => rfl
  | cons w ws ih =>
    obtain ⟨hw, hws⟩ := List.forall_mem_cons.1 h
    cases ws with
    | nil => simpa using hw.words_eq
    | cons next ws =>
      rw [List.intercalate_cons_cons, List.append_assoc, List.singleton_append,
        words_append_cons rfl, hw.words_eq, ih hws]
      rfl

/-- Blanks around a text are no words. -/
theorem words_append_of_blank {a b : Text} (ha : ∀ c ∈ a, isBlank c = true)
    (hb : ∀ c ∈ b, isBlank c = true) (t : Text) : words (a ++ t ++ b) = words t := by
  have hfront : ∀ u : Text, words (a ++ u) = words u := by
    intro u
    induction a with
    | nil => rfl
    | cons c a ih =>
      obtain ⟨hc, ha⟩ := List.forall_mem_cons.1 ha
      exact (words_append_cons hc [] (a ++ u)).trans (ih ha)
  rw [List.append_assoc, hfront]
  induction b using List.reverseRecOn with
  | nil => rw [List.append_nil]
  | append_singleton b c ih =>
    obtain ⟨hb, hc⟩ := List.forall_mem_append.1 hb
    rw [← List.append_assoc, words_append_cons (hc c List.mem_cons_self), ih hb, words_nil,
      List.append_nil]

/-- A word with blanks around it is the only word of the text. -/
theorem words_eq_of_trim {t : Text} (h : IsWord t.trim) : words t = [t.trim] := by
  obtain ⟨a, b, ht, ha, hb⟩ := exists_eq_trim t
  rw [ht, words_append_of_blank ha hb, trim_append_of_blank ha hb, trim_trim]
  exact h.words_eq

end ScopedStyles.Text
