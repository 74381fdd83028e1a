import Mathlib.Data.List.Chain
import ScopedStyles.Proofs.Grammar.Derivation
import ScopedStyles.Proofs.Text.Plain
import ScopedStyles.Proofs.Text.Trim

/-!
# Texts that are read as they are written

Reading a source leaves out comments and blanks that are superfluous. A text without any is gathered
character by character, and a space in front of a delimiter or a comma is the only thing that does
not outlast what follows it.

## Main definitions

* `Text.Tidy` — nothing in a text is left out.
* `Pending.ofText` — what is pending after a tidy text.
* `Source.IsRead` — what the pieces of a part of a source are.

## Main statements

* `Pending.after_ofText` — a tidy text is pending as it is written.
* `Source.IsRead.append` — one part of a source is read after another.
-/

namespace ScopedStyles

/-- Whether a character is gathered if another one follows it. -/
structure Text.Keeps (a b : Char) : Prop where
  no_comment : ¬ (a = '/' ∧ b = '*')
  no_space : a = ' ' → Pending.drawsNear b = false

/-- Whether two characters in a row are both gathered. -/
structure Text.Fits (a b : Char) : Prop extends Text.Keeps a b where
  no_space_after : b = ' ' → a ≠ ' ' ∧ a ≠ ':'

instance (a b : Char) : Decidable (Text.Fits a b) :=
  decidable_of_iff (¬ (a = '/' ∧ b = '*') ∧ (a = ' ' → Pending.drawsNear b = false) ∧
      (b = ' ' → a ≠ ' ' ∧ a ≠ ':'))
    ⟨fun h => ⟨⟨h.1, h.2.1⟩, h.2.2⟩, fun h => ⟨h.no_comment, h.no_space, h.no_space_after⟩⟩

/-- A text of which nothing is left out. -/
structure Text.Tidy (t : Text) : Prop where
  head : t.head? ≠ some ' '
  plain : t.Plain
  blanks : ∀ c ∈ t, c.isWhitespace = true → c = ' '
  fits : t.IsChain Text.Fits

instance (t : Text) : Decidable t.Tidy :=
  have := List.decidableBAll (fun c => c.isWhitespace = true → c = ' ') t
  decidable_of_iff (t.head? ≠ some ' ' ∧ t.Plain ∧ (∀ c ∈ t, c.isWhitespace = true → c = ' ') ∧
      t.IsChain Text.Fits)
    ⟨fun ⟨hhead, hplain, hblanks, hfits⟩ => ⟨hhead, hplain, hblanks, hfits⟩,
      fun ⟨hhead, hplain, hblanks, hfits⟩ => ⟨hhead, hplain, hblanks, hfits⟩⟩

theorem Text.Tidy.of_isPrefix {s t : Text} (h : t.Tidy) (hs : s <+: t) : s.Tidy where
  head hhead := by
    obtain ⟨u, rfl⟩ := hs
    exact h.head (List.mem_head?_append_of_mem_head? hhead)
  plain := h.plain.of_subset hs.subset
  blanks c hc := h.blanks c (hs.subset hc)
  fits := h.fits.prefix hs

theorem Text.Tidy.append {s t : Text} (hs : s.Tidy) (ht : t.Tidy)
    (h : ∀ a ∈ s.getLast?, ∀ b ∈ t.head?, Text.Fits a b) : Text.Tidy (s ++ t) where
  head := by
    cases s with
    | nil => exact ht.head
    | cons a s => exact hs.head
  plain := Text.plain_append_iff.2 ⟨hs.plain, ht.plain⟩
  blanks := List.forall_mem_append.2 ⟨hs.blanks, ht.blanks⟩
  fits := hs.fits.append ht.fits h

/-- A character between two texts fits if it is plain and fits with what stands next to it. -/
theorem Text.Fits.last {s : Text} {a b : Char} (h : Text.Tidy (s ++ [b])) (ha : a ∈ s.getLast?) :
    Text.Fits a b :=
  (List.isChain_append.1 h.fits).2.2 a ha b rfl

namespace Pending

theorem drawsNear_eq_false {c : Char} (hdelimiter : Delimiter.ofChar? c = none) (hcomma : c ≠ ',') :
    drawsNear c = false := by
  obtain ⟨hsemicolon, hopen, hclose⟩ := Delimiter.ofChar?_eq_none_iff.1 hdelimiter
  simp [drawsNear, hsemicolon, hopen, hclose, hcomma]

theorem drawsNear_of_isWhitespace {c : Char} (hc : c.isWhitespace = true) :
    drawsNear c = false :=
  drawsNear_eq_false (Delimiter.ofChar?_of_isWhitespace hc) (by rintro rfl; cases hc)

/-- What is pending after a tidy text. -/
def ofText (t : Text) : Pending where
  tight := t.getLast?.all fun c => c = ' ' || c = ':'
  gathered := t.reverse

@[simp] theorem ofText_nil : ofText [] = {} := rfl

@[simp] theorem text_ofText (t : Text) : (ofText t).text = t :=
  List.reverse_reverse t

/-- A character that fits is gathered, whatever it is. -/
theorem read_ofText {t : Text} {c : Char} (h : Text.Tidy (t ++ [c])) {next : Option Char}
    (hnext : ∀ d ∈ next, Text.Keeps c d) : (ofText t).read c next = ofText (t ++ [c]) := by
  have hdelimiter : Delimiter.ofChar? c = none := h.plain c (by simp)
  have hcomment : ¬ (c = '/' && next = some '*') = true := by
    simp only [Bool.and_eq_true, decide_eq_true_eq, not_and]
    rintro rfl rfl
    exact (hnext '*' rfl).no_comment ⟨rfl, rfl⟩
  have hof : ofText (t ++ [c]) = ⟨.outside, c = ' ' || c = ':', c :: t.reverse⟩ := by simp [ofText]
  rw [hof, read]
  simp only [ofText]
  rw [if_neg hcomment]
  by_cases hspace : c.isWhitespace = true
  · obtain rfl := h.blanks c (by simp) hspace
    have hne : t ≠ [] := by
      rintro rfl
      exact h.head rfl
    obtain ⟨s, d, rfl⟩ := (List.eq_nil_or_concat t).resolve_left hne
    have hd : d ≠ ' ' ∧ d ≠ ':' := by
      have hfits := h.fits
      rw [List.concat_append, List.isChain_append_cons_cons] at hfits
      exact hfits.2.1.no_space_after rfl
    have hdraws : next.any drawsNear = false := by
      cases next with
      | none => rfl
      | some e => exact (hnext e rfl).no_space rfl
    simp [hspace, keepsBlank, hd, hdraws]
  · have hne : c ≠ ' ' := by
      rintro rfl
      exact hspace rfl
    simp [hspace, hdelimiter, hne]

/-- A tidy text is pending as it is written. -/
theorem after_ofText {s t : Text} (h : Text.Tidy (s ++ t)) {next : Option Char}
    (hnext : ∀ c ∈ (s ++ t).getLast?, ∀ d ∈ next, Text.Keeps c d) :
    (ofText s).after next t = ofText (s ++ t) := by
  induction t generalizing s with
  | nil => simp
  | cons c t ih =>
    have hsplit : s ++ c :: t = (s ++ [c]) ++ t := by simp
    have hfirst : Text.Tidy (s ++ [c]) := (hsplit ▸ h).of_isPrefix (List.prefix_append _ t)
    rw [hsplit] at h hnext ⊢
    have hkeeps : ∀ d ∈ t.head?.or next, Text.Keeps c d := by
      cases t with
      | nil => simpa using hnext c (by simp)
      | cons d t =>
        have hchain := (List.isChain_append.1 h.fits).2.2 c (by simp) d (by simp)
        simpa using hchain.toKeeps
    rw [after, read_ofText hfirst hkeeps]
    exact ih h hnext

theorem after_tidy {t : Text} (h : t.Tidy) {next : Option Char}
    (hnext : ∀ c ∈ t.getLast?, ∀ d ∈ next, Text.Keeps c d) :
    Pending.after {} next t = ofText t :=
  after_ofText (s := []) h hnext

/-- A space is left out in front of a delimiter or a comma. -/
theorem read_space {p : Pending} (hphase : p.phase = .outside) {next : Char}
    (hnext : drawsNear next = true) : p.read ' ' (some next) = { p with tight := true } := by
  simp [read, hphase, keepsBlank, hnext, Char.isWhitespace]

/-- What is pending after a character that is no blank does not depend on what it follows. -/
theorem after_tight {p : Pending} (hphase : p.phase = .outside) {c : Char}
    (hc : c.isWhitespace = false) (tight : Bool) (next : Option Char) (t : Text) :
    Pending.after { p with tight } next (c :: t) = p.after next (c :: t) := by
  simp [after, read, hphase, hc]

/-- A keyword and what follows it are pending as they are written, except that no space stays in
front of a comma. -/
theorem after_keyword {keyword t : Text} (hkeyword : Text.Tidy (keyword ++ [' ']))
    (ht : t.Tidy) (hne : t ≠ []) {next : Option Char}
    (hnext : ∀ c ∈ t.getLast?, ∀ d ∈ next, Text.Keeps c d) :
    ∃ gap : Text, (∀ c ∈ gap, Text.isBlank c = true) ∧
      Pending.after {} next (keyword ++ ' ' :: t) = ofText (keyword ++ (gap ++ t)) := by
  obtain ⟨c, rest, rfl⟩ := List.exists_cons_of_ne_nil hne
  have hhead : c ≠ ' ' := by simpa using ht.head
  have hlast : ∀ s : Text, (s ++ c :: rest).getLast? = (c :: rest).getLast? := fun s => by
    rw [List.getLast?_append_of_ne_nil s hne]
  by_cases hcomma : c = ','
  · subst hcomma
    have htidy : keyword.Tidy := hkeyword.of_isPrefix (List.prefix_append _ _)
    have hwhole : Text.Tidy (keyword ++ ',' :: rest) := by
      refine htidy.append ht fun a ha b hb => ?_
      obtain rfl := Option.mem_some_iff.1 hb
      have hspace := (Text.Fits.last hkeyword ha).no_space_after rfl
      exact ⟨⟨by simp, fun h => absurd h hspace.1⟩, by simp⟩
    refine ⟨[], by simp, ?_⟩
    calc Pending.after {} next (keyword ++ ' ' :: ',' :: rest)
        = (Pending.after {} (some ' ') keyword).after next (' ' :: ',' :: rest) :=
          after_append ..
      _ = (ofText keyword).after next (' ' :: ',' :: rest) := by
          rw [after_tidy htidy]
          intro a ha b hb
          obtain rfl := Option.mem_some_iff.1 hb
          exact (Text.Fits.last hkeyword ha).toKeeps
      _ = Pending.after { ofText keyword with tight := true } next (',' :: rest) := by
          rw [after, List.head?_cons, Option.some_or, read_space rfl rfl]
      _ = (ofText keyword).after next (',' :: rest) := after_tight rfl rfl true next rest
      _ = ofText (keyword ++ ',' :: rest) := after_ofText hwhole (by rwa [hlast])
  · have hdraws := drawsNear_eq_false (ht.plain c List.mem_cons_self) hcomma
    have hwhole : Text.Tidy ((keyword ++ [' ']) ++ c :: rest) := by
      refine hkeyword.append ht fun a ha b hb => ?_
      obtain rfl : ' ' = a := by simpa using ha
      obtain rfl := Option.mem_some_iff.1 hb
      exact ⟨⟨by simp, fun _ => hdraws⟩, fun h => absurd h hhead⟩
    refine ⟨[' '], List.forall_mem_singleton.2 rfl, ?_⟩
    have hafter := after_tidy hwhole (by rwa [hlast])
    simpa using hafter

/-- Only a delimiter ends a chunk. -/
theorem chunks_eq_nil {t : Text} (ht : t.Plain) (p : Pending)
    (offset : Nat) (next : Option Char) : p.chunks offset next t = [] := by
  induction t generalizing p offset with
  | nil => rfl
  | cons c t ih =>
    obtain ⟨hc, ht⟩ := Text.plain_cons_iff.1 ht
    have hnone : p.delimiter? c = none := by simp [delimiter?, hc]
    rw [chunks, hnone]
    exact ih ht _ _

end Pending

namespace Source

/-- The pieces of a part of a source at whose end nothing is pending. -/
structure IsRead (t : Text) (pieces : List Piece) : Prop where
  after : ∀ next, Pending.after {} next t = {}
  chunks : ∀ offset next, (Pending.chunks {} offset next t).map Chunk.piece = pieces

namespace IsRead

theorem nil : IsRead [] [] :=
  ⟨fun _ => rfl, fun _ _ => rfl⟩

theorem append {a b : Text} {ps qs : List Piece} (ha : IsRead a ps) (hb : IsRead b qs) :
    IsRead (a ++ b) (ps ++ qs) where
  after next := by rw [Pending.after_append, ha.after, hb.after]
  chunks offset next := by
    rw [Pending.chunks_append, List.map_append, ha.chunks, ha.after, hb.chunks]

theorem flatMap {α : Type} {text : α → Text} {pieces : α → List Piece} {xs : List α}
    (h : ∀ x ∈ xs, IsRead (text x) (pieces x)) : IsRead (xs.flatMap text) (xs.flatMap pieces) := by
  induction xs with
  | nil => exact nil
  | cons x xs ih =>
    obtain ⟨hx, hxs⟩ := List.forall_mem_cons.1 h
    exact hx.append (ih hxs)

/-- A delimiter ends a piece. -/
theorem concat {t : Text} (ht : t.Plain) {p : Pending} (hphase : p.phase = .outside) (d : Delimiter)
    (hafter : Pending.after {} (some d.char) t = p) :
    IsRead (t ++ [d.char]) [⟨p.text.trim, d⟩] := by
  have hdelimiter := Pending.delimiter?_char hphase d
  constructor
  · intro next
    rw [Pending.after_append]
    simp [Pending.after, hafter, Pending.read_of_delimiter? hdelimiter]
  · intro offset next
    rw [Pending.chunks_append, Pending.chunks_eq_nil ht, List.nil_append]
    simp [hafter, Pending.chunks, hdelimiter, Chunk.piece]

/-- A tidy text in front of a delimiter is a piece. -/
theorem tidy {t : Text} (h : t.Tidy) (htrimmed : t.Trimmed) (d : Delimiter) :
    IsRead (t ++ [d.char]) [⟨t, d⟩] := by
  have hkeeps : ∀ c ∈ t.getLast?, ∀ e ∈ some d.char, Text.Keeps c e := by
    intro c hc e he
    obtain rfl := Option.mem_some_iff.1 he
    refine ⟨fun h => ?_, ?_⟩
    · cases d <;> simp [Delimiter.char] at h
    · rintro rfl
      exact absurd (htrimmed.last _ hc) (by decide)
  have hafter := Pending.after_tidy h hkeeps
  have hread := concat h.plain rfl d hafter
  simpa [Text.trim_eq_self htrimmed] using hread

theorem pieces_eq {source : Text} {ps : List Piece} (h : IsRead source ps) :
    pieces source = ps :=
  h.chunks 0 none

theorem lastPiece_eq {source : Text} {ps : List Piece} (h : IsRead source ps) :
    lastPiece source = [] := by
  rw [lastPiece, remainder, h.after]
  rfl

end IsRead

end Source

end ScopedStyles
