import ScopedStyles.FlatRule.Reader
import ScopedStyles.Proofs.Rule.Pieces
import ScopedStyles.Proofs.Text.Trim

/-!
# Reading flat rules piece by piece

A text that consists of whole pieces is a flat rule exactly when the pieces lead, one after the
other, to a draft in which a rule is complete. Offsets play no part in this.

## Main definitions

* `FlatDraft.accept?` — the draft after a piece.
* `FlatDraft.acceptAll?` — the draft after some pieces.

## Main statements

* `FlatRule.read_append_eq_ok_iff` — reading is accepting all pieces, and blanks behind them.
* `FlatRule.read_written_eq_ok_iff` — the case of pieces alone.
* `Part.head_cases` — what a head may be.
* `Part.head_cons`, `Part.head_qualify`, `Part.head_group`, `Part.declaration_append` — what is read
  of the parts that printed rules consist of.
-/

namespace ScopedStyles

namespace FlatDraft

/-- The draft after a piece, if that may come next. -/
def accept? (d : FlatDraft) (piece : Piece) : Option FlatDraft :=
  match d.expected.part piece.text with
  | .error _ => none
  | .ok part => d.take part piece.delimiter

/-- The draft after some pieces, if they may come next. -/
def acceptAll? (d : FlatDraft) (pieces : List Piece) : Option FlatDraft :=
  pieces.foldlM accept? d

@[simp] theorem acceptAll?_nil (d : FlatDraft) : d.acceptAll? [] = some d := rfl

@[simp] theorem acceptAll?_cons (d : FlatDraft) (piece : Piece) (pieces : List Piece) :
    d.acceptAll? (piece :: pieces) = (d.accept? piece).bind (·.acceptAll? pieces) := rfl

@[simp] theorem acceptAll?_append (d : FlatDraft) (a b : List Piece) :
    d.acceptAll? (a ++ b) = (d.acceptAll? a).bind (·.acceptAll? b) :=
  List.foldlM_append

theorem toOption_readAll {pieces : List Piece} (h : ∀ piece ∈ pieces, piece.text.Plain)
    {rest : Text} (hrest : rest.Plain) (d : FlatDraft) (offset : Nat) :
    (d.readAll (Chunk.cutFrom [] offset (pieces.flatMap Piece.written ++ rest))).toOption =
      d.acceptAll? pieces := by
  induction pieces generalizing d offset with
  | nil =>
    have hcut : Chunk.cutFrom [] offset rest = [] := by
      simpa [Chunk.cutFrom] using Chunk.cutFrom_plain hrest [] offset []
    simp [hcut, readAll, Except.toOption]
  | cons piece pieces ih =>
    obtain ⟨hpiece, hpieces⟩ := List.forall_mem_cons.1 h
    rw [List.flatMap_cons, List.append_assoc, Chunk.cutFrom_written hpiece, readAll,
      acceptAll?_cons, accept?]
    cases d.expected.part piece.text with
    | error unread => rfl
    | ok part =>
      cases htake : d.take part piece.delimiter with
      | none => simp [htake, Except.toOption]
      | some next => simpa [htake] using ih hpieces next _

/-- A rule is complete when nothing but blanks that count for nothing follows it. -/
theorem finish_eq_ok_iff {d : FlatDraft} {rest : Text} {length : Nat} {flat : FlatRule} :
    d.finish rest length = .ok flat ↔ d.expected = .nothing flat ∧ Part.skip rest = [] := by
  rw [finish]
  cases hexpected : d.expected with
  | nothing rule =>
    rw [Expected.part, Part.nothing]
    cases Part.skip rest with
    | nil => simp
    | cons c t => simp
  | rule => cases Expected.part .rule rest <;> simp
  | step name steps => cases Expected.part (.step name steps) rest <;> simp
  | declaration rule animation => cases Expected.part (.declaration rule animation) rest <;> simp

end FlatDraft

/-- A text is a flat rule exactly when its pieces lead to a draft in which the rule is complete. -/
theorem FlatRule.read_append_eq_ok_iff {pieces : List Piece}
    (h : ∀ piece ∈ pieces, piece.text.Plain) {rest : Text} (hrest : rest.Plain)
    {flat : FlatRule} :
    FlatRule.read (pieces.flatMap Piece.written ++ rest) = .ok flat ↔
      ∃ d, FlatDraft.acceptAll? {} pieces = some d ∧ d.expected = .nothing flat ∧
        Part.skip rest = [] := by
  have hreadAll := FlatDraft.toOption_readAll h hrest {} 0
  rw [FlatRule.read, Chunk.cut, Chunk.rest, Chunk.restFrom_written h hrest]
  cases hread :
      FlatDraft.readAll {} (Chunk.cutFrom [] 0 (pieces.flatMap Piece.written ++ rest)) with
  | error offset =>
    rw [hread] at hreadAll
    simp [← hreadAll, Except.toOption]
  | ok d =>
    rw [hread] at hreadAll
    rw [← hreadAll]
    simp only [Except.toOption, Option.some.injEq, exists_eq_left']
    rw [← FlatDraft.finish_eq_ok_iff]
    cases d.finish rest (pieces.flatMap Piece.written ++ rest).length with
    | error offset => constructor <;> rintro ⟨⟩
    | ok flat' =>
      constructor
      all_goals
        rintro ⟨⟩
        rfl

/-- Some pieces are a flat rule exactly when they lead to a draft in which it is complete. -/
theorem FlatRule.read_written_eq_ok_iff {pieces : List Piece}
    (h : ∀ piece ∈ pieces, piece.text.Plain) {flat : FlatRule} :
    FlatRule.read (pieces.flatMap Piece.written) = .ok flat ↔
      ∃ d, FlatDraft.acceptAll? {} pieces = some d ∧ d.expected = .nothing flat := by
  simpa [Part.skip] using FlatRule.read_append_eq_ok_iff h Text.plain_nil

/-! ## Parts -/

namespace Part

theorem isBlank_of_isIgnored {c : Char} (h : isIgnored c = true) : Text.isBlank c = true := by
  simp only [isIgnored, Bool.or_eq_true, decide_eq_true_eq] at h
  rcases h with (((rfl | rfl) | rfl) | rfl) | rfl <;> decide

theorem skip_cons {c : Char} (hc : Text.isBlank c = false) (rest : Text) :
    skip (c :: rest) = c :: rest := by
  have hignored : isIgnored c = false := by
    by_contra h
    simp [isBlank_of_isIgnored (by simpa using h)] at hc
  simp [skip, hignored]

theorem skip_ne_nil {t : Text} {c : Char} (hmem : c ∈ t) (hc : Text.isBlank c = false) :
    skip t ≠ [] := by
  intro h
  rw [skip, List.dropWhile_eq_nil_iff] at h
  simp [isBlank_of_isIgnored (h c hmem)] at hc

/-- A text that starts neither with a blank nor with an at sign is a selector. -/
theorem step_cons {c : Char} (hc : Text.isBlank c = false) (hat : c ≠ '@') (rest : Text) :
    step (c :: rest) = .ok (.style (c :: rest)) := by
  simp [step, skip_cons hc, hat, hc]

/-- Only what starts with an at sign can be anything else than a selector. -/
theorem head_eq_step {t : Text} (h : (skip t).head? ≠ some '@') : head t = step t := by
  rw [head, isPrefixOf?_eq_none rfl h, isPrefixOf?_eq_none rfl h, isPrefixOf?_eq_none rfl h]

theorem head_cons {c : Char} (hc : Text.isBlank c = false) (hat : c ≠ '@') (rest : Text) :
    head (c :: rest) = .ok (.style (c :: rest)) := by
  have hhead : (skip (c :: rest)).head? ≠ some '@' := by simpa [skip_cons hc] using hat
  rw [head_eq_step hhead, step_cons hc hat]

theorem head_keyframes (t : Text) : head (keyframesKeyword ++ t) = name t := by
  have hskip : skip (keyframesKeyword ++ t) = keyframesKeyword ++ t := by
    rw [keyframesKeyword_eq]
    exact skip_cons (by decide) _
  rw [head, hskip, isPrefixOf?_keyframesKeyword]

theorem head_group (type : GroupType) (t : Text) : head (type.keyword ++ t) = query type t := by
  have hskip : skip (type.keyword ++ t) = type.keyword ++ t := by
    cases type
    · exact skip_cons (by decide) _
    · exact skip_cons (by decide) _
  rw [head, hskip]
  cases type <;> simp

/-- A head starts with a keyword, or else it is read as a selector. -/
theorem head_cases (t : Text) :
    (∃ rest, skip t = keyframesKeyword ++ rest ∧ head t = name rest) ∨
      (∃ (type : GroupType) (rest : Text),
        skip t = type.keyword ++ rest ∧ head t = query type rest) ∨
      head t = step t := by
  rw [head]
  split
  · next rest hkeyword =>
    exact .inl ⟨rest, (List.isPrefixOf?_eq_some_iff_append_eq.1 hkeyword).symm, rfl⟩
  · split
    · next rest hkeyword =>
      exact .inr (.inl ⟨.media, rest, (List.isPrefixOf?_eq_some_iff_append_eq.1 hkeyword).symm,
        rfl⟩)
    · split
      · next rest hkeyword =>
        exact .inr (.inl ⟨.supports, rest,
          (List.isPrefixOf?_eq_some_iff_append_eq.1 hkeyword).symm, rfl⟩)
      · exact .inr (.inr rfl)

theorem skip_space (t : Text) : skip (' ' :: t) = skip t := rfl

/-- What is left of a trimmed text ends in its last character, which is not skipped. -/
theorem skip_dropWhile_ne_nil {t : Text} (ht : t.Trimmed) {p : Char → Bool}
    (h : t.dropWhile p ≠ []) : skip (t.dropWhile p) ≠ [] := by
  have hsuffix : t.dropWhile p <:+ t := List.dropWhile_suffix p
  refine skip_ne_nil (List.getLast_mem h) (ht.last _ ?_)
  rw [hsuffix.getLast h]
  exact List.getLast_mem_getLast? _

/-- A name is read if it holds no blank. Otherwise more stands where it should end. -/
theorem name_space {t u : Text} (ht : ∀ c ∈ t, Text.isBlank c = false) (hne : t ≠ [])
    (hu : u.Trimmed) :
    name (' ' :: (t ++ u)) =
      if (u.all fun c => !Text.isBlank c) then .ok (.keyframes (t ++ u))
      else .error (skip (u.dropWhile fun c => !Text.isBlank c)) := by
  obtain ⟨c, rest, rfl⟩ := List.exists_cons_of_ne_nil hne
  have hc : Text.isBlank c = false := ht c List.mem_cons_self
  have hpos : ∀ d ∈ c :: rest, (!Text.isBlank d) = true := by simpa using ht
  have hskip : skip (' ' :: (c :: rest ++ u)) = c :: rest ++ u := skip_cons hc _
  rw [name, hskip, List.takeWhile_append_of_pos hpos, List.dropWhile_append_of_pos hpos]
  by_cases hall : ∀ d ∈ u, (!Text.isBlank d) = true
  · rw [if_pos (List.all_eq_true.2 hall), List.takeWhile_eq_self_iff.2 hall,
      List.dropWhile_eq_nil_iff.2 hall]
    rfl
  · rw [if_neg (by rwa [List.all_eq_true])]
    have hunread := skip_dropWhile_ne_nil hu (mt List.dropWhile_eq_nil_iff.1 hall)
    dsimp only [List.cons_append]
    split
    · next hnil => exact absurd hnil hunread
    · rfl

/-- An animation can be named after its scope if neither name holds a blank. -/
theorem head_qualify {scope name : Text} (hscope : ∀ c ∈ scope, Text.isBlank c = false)
    (hname : name.Trimmed) :
    head (keyframesKeyword ++ ' ' :: qualify scope name) =
      if (name.all fun c => !Text.isBlank c) then .ok (.keyframes (qualify scope name))
      else .error (skip (name.dropWhile fun c => !Text.isBlank c)) := by
  have hsplit : qualify scope name = (scope ++ ['-']) ++ name := by simp [qualify]
  have hqualified : ∀ c ∈ scope ++ ['-'], Text.isBlank c = false :=
    List.forall_mem_append.2 ⟨hscope, List.forall_mem_singleton.2 (by decide)⟩
  rw [head_keyframes, hsplit, name_space hqualified (by simp) hname]

/-- A query is read with the blank after it, if there is a query. -/
theorem query_space {t : Text} (ht : t.Trimmed) (type : GroupType) :
    query type (' ' :: (t ++ [' '])) =
      .ok (if t = [] then .incomplete else .group type (t ++ [' '])) := by
  rw [query, skip_space]
  cases t with
  | nil => rfl
  | cons c rest =>
    have hc : Text.isBlank c = false := ht.head c rfl
    simp [skip_cons hc, hc]

/-- A declaration is read unless its property starts with an at sign. -/
theorem declaration_append {property value : Text}
    (hproperty : ∀ c ∈ property.head?, Text.isBlank c = false)
    (hne : property ≠ []) (hcolon : ':' ∉ property) (hvalue : value ≠ []) :
    declaration (property ++ ':' :: value) =
      if property.head? = some '@' then .error (property ++ ':' :: value)
      else .ok (.declared property value) := by
  obtain ⟨c, rest, rfl⟩ := List.exists_cons_of_ne_nil hne
  have hc : Text.isBlank c = false := hproperty c rfl
  have hfirst : c ≠ ':' := fun h => hcolon (h ▸ List.mem_cons_self)
  have hcut : Text.cutAt? ':' (c :: (rest ++ ':' :: value)) = some (c :: rest, value) :=
    Text.cutAt?_eq_some_iff.2 ⟨rfl, hcolon⟩
  rw [declaration, List.cons_append, skip_cons hc]
  by_cases hat : c = '@'
  · simp [hat]
  · simp [hat, hfirst, hc, hcut]

end Part

end ScopedStyles
