import Mathlib.Data.List.Forall2
import ScopedStyles.Proofs.FlatRule.Segments
import ScopedStyles.Proofs.Rule.Pieces

/-!
# Laying out a flat rule piece by piece

The tokens of a flat rule are those of its segments, and each segment ends in a delimiter that no
token of a part holds. So a text derives from a rule exactly when its pieces show the segments of
the rule, one each.

## Main definitions

* `Part.tokens` — the tokens of a part.
* `Part.text` — a part as it is written.
* `Segment.Shown` — a piece in which the tokens of a segment are laid out.

## Main statements

* `laid_segments_iff` — laying out segments is showing them piece by piece.
* `FlatRule.text_eq_written` — a rule is written as its segments are.
-/

namespace ScopedStyles

/-! ## Tokens of segments -/

/-- The tokens of a part. -/
def Part.tokens : Part → List Token
  | .blank | .incomplete => []
  | .style selector => [⟨.selector, selector⟩]
  | .keyframes name => [.literal keyframesKeyword, ⟨.name, name⟩]
  | .group type query => [⟨.groupKeyword, type.keyword⟩, ⟨.query, query⟩]
  | .declared property value => [⟨.property, property⟩, .literal [':'], ⟨.value, value⟩]

/-- The tokens of a segment. -/
def Segment.tokens (segment : Segment) : List Token :=
  segment.part.tokens ++ [.literal [segment.delimiter.char]]

theorem StyleRule.tokens_eq_flatMap (rule : StyleRule) :
    rule.tokens = rule.segments.flatMap Segment.tokens := by
  simp [tokens, segments, opening, Segment.tokens, Part.tokens, Delimiter.char, List.flatMap_map]
  rfl

theorem StyleRule.flatMap_tokens_eq (rules : List StyleRule) :
    rules.flatMap tokens = (rules.flatMap segments).flatMap Segment.tokens := by
  rw [List.flatMap_assoc]
  exact List.flatMap_congr fun rule _ => rule.tokens_eq_flatMap

mutual

theorem FlatRule.tokens_eq_flatMap :
    (flat : FlatRule) → flat.tokens = flat.segments.flatMap Segment.tokens
  | .style rule => rule.tokens_eq_flatMap
  | .keyframes name steps => by
    simp [FlatRule.tokens, FlatRule.segments, Segment.tokens, Part.tokens, Delimiter.char,
      StyleRule.flatMap_tokens_eq]
  | .group type query rules => by
    simp [FlatRule.tokens, FlatRule.segments, Segment.tokens, Part.tokens, Delimiter.char,
      FlatRule.bodyTokens_eq_flatMap rules]

theorem FlatRule.bodyTokens_eq_flatMap : (rules : List FlatRule) →
    FlatRule.bodyTokens rules = (FlatRule.bodySegments rules).flatMap Segment.tokens
  | [] => rfl
  | rule :: rules => by
    simp [FlatRule.bodyTokens, FlatRule.bodySegments, FlatRule.tokens_eq_flatMap rule,
      FlatRule.bodyTokens_eq_flatMap rules]

end

/-! ## Texts of segments -/

/-- A part as it is written, with one space after a keyword. -/
def Part.text : Part → Text
  | .blank | .incomplete => []
  | .style selector => selector
  | .keyframes name => keyframesKeyword ++ ' ' :: name
  | .group type query => type.keyword ++ ' ' :: query
  | .declared property value => property ++ ':' :: value

/-- A segment as it is written. -/
def Segment.piece (segment : Segment) : Piece :=
  ⟨segment.part.text, segment.delimiter⟩

theorem StyleRule.text_eq_written (rule : StyleRule) :
    rule.text = (rule.segments.map Segment.piece).flatMap Piece.written := by
  simp [text, segments, opening, Segment.piece, Part.text, Piece.written, Delimiter.char,
    List.flatMap_map]

theorem StyleRule.flatMap_text_eq_written (rules : List StyleRule) :
    rules.flatMap text = ((rules.flatMap segments).map Segment.piece).flatMap Piece.written := by
  rw [List.map_flatMap, List.flatMap_assoc]
  exact List.flatMap_congr fun rule _ => rule.text_eq_written

mutual

/-- A rule is written as its segments are. -/
theorem FlatRule.text_eq_written :
    (flat : FlatRule) → flat.text = (flat.segments.map Segment.piece).flatMap Piece.written
  | .style rule => rule.text_eq_written
  | .keyframes name steps => by
    simp [FlatRule.text, FlatRule.segments, Segment.piece, Part.text, Piece.written,
      Delimiter.char, StyleRule.flatMap_text_eq_written]
  | .group type query rules => by
    simp [FlatRule.text, FlatRule.segments, Segment.piece, Part.text, Piece.written,
      Delimiter.char, FlatRule.bodyText_eq_written rules]

theorem FlatRule.bodyText_eq_written : (rules : List FlatRule) → FlatRule.bodyText rules =
    ((FlatRule.bodySegments rules).map Segment.piece).flatMap Piece.written
  | [] => rfl
  | rule :: rules => by
    simp [FlatRule.bodyText, FlatRule.bodySegments, FlatRule.text_eq_written rule,
      FlatRule.bodyText_eq_written rules]

end

/-! ## Laying out segments -/

/-- The tokens of a segment are laid out in a piece. -/
structure Segment.Shown (segment : Segment) (piece : Piece) : Prop where
  delimiter : piece.delimiter = segment.delimiter
  spread : Spread segment.part.tokens piece.text

/-- A segment is laid out as it is written. -/
theorem Segment.shown_piece {segment : Segment}
    (h : ∀ token ∈ segment.part.tokens, token.IsValid) : segment.Shown segment.piece := by
  obtain ⟨part, delimiter⟩ := segment
  refine ⟨rfl, ?_⟩
  have hnil : Spread [] [] := spread_nil_iff.2 Text.ignored_nil
  have hspace : Text.Ignored [' '] := by
    simp [Text.Ignored, Part.isIgnored]
  cases part with
  | blank | incomplete => exact hnil
  | style selector =>
    have hselector := h ⟨.selector, selector⟩ (by simp [Part.tokens])
    exact spread_cons_iff.2 ⟨[], [], by simp [piece, Part.text], Text.ignored_nil, hselector, hnil⟩
  | keyframes name =>
    have hname := h ⟨.name, name⟩ (by simp [Part.tokens])
    refine spread_cons_iff.2 ⟨[], ' ' :: name, rfl, Text.ignored_nil, rfl, ?_⟩
    exact spread_cons_iff.2 ⟨[' '], [], by simp, hspace, hname, hnil⟩
  | group type query =>
    have hquery := h ⟨.query, query⟩ (by simp [Part.tokens])
    refine spread_cons_iff.2 ⟨[], ' ' :: query, rfl, Text.ignored_nil, ⟨type, rfl⟩, ?_⟩
    exact spread_cons_iff.2 ⟨[' '], [], by simp, hspace, hquery, hnil⟩
  | declared property value =>
    have hproperty := h ⟨.property, property⟩ (by simp [Part.tokens])
    have hvalue := h ⟨.value, value⟩ (by simp [Part.tokens])
    refine spread_cons_iff.2 ⟨[], ':' :: value, rfl, Text.ignored_nil, hproperty, ?_⟩
    refine spread_cons_iff.2 ⟨[], value, rfl, Text.ignored_nil, rfl, ?_⟩
    exact spread_cons_iff.2 ⟨[], [], by simp, Text.ignored_nil, hvalue, hnil⟩

/-- Segments are laid out in a text that consists of pieces, each of which shows its segment. -/
theorem laid_segments_iff {segments : List Segment} {t : Text} :
    Laid (segments.flatMap Segment.tokens) t ↔
      ∃ pieces : List Piece, t = pieces.flatMap Piece.written ∧
        List.Forall₂ Segment.Shown segments pieces := by
  induction segments generalizing t with
  | nil => simp
  | cons segment segments ih =>
    rw [List.flatMap_cons, Segment.tokens, laid_append_iff]
    constructor
    · rintro ⟨_, rest, rfl, hsegment, hrest⟩
      obtain ⟨shown, rfl, hshown⟩ := laid_concat_literal_iff.1 hsegment
      obtain ⟨pieces, rfl, hpieces⟩ := ih.1 hrest
      exact ⟨⟨shown, segment.delimiter⟩ :: pieces, rfl, .cons ⟨rfl, hshown⟩ hpieces⟩
    · rintro ⟨_, rfl, hall⟩
      obtain ⟨piece, pieces, hshown, hpieces, rfl⟩ := List.forall₂_cons_left_iff.1 hall
      refine ⟨piece.written, _, rfl, ?_, ih.2 ⟨pieces, rfl, hpieces⟩⟩
      exact laid_concat_literal_iff.2 ⟨piece.text, by rw [Piece.written, hshown.delimiter],
        hshown.spread⟩

/-- A text derives from a rule if its pieces show the segments of the rule. -/
theorem FlatRule.derives_iff {flat : FlatRule} {t : Text} :
    flat.Derives t ↔ ∃ (pieces : List Piece) (gap : Text),
      t = pieces.flatMap Piece.written ++ gap ∧
        List.Forall₂ Segment.Shown flat.segments pieces ∧ gap.Ignored := by
  rw [FlatRule.Derives, Spread, FlatRule.tokens_eq_flatMap]
  constructor
  · rintro ⟨body, gap, rfl, hbody, hgap⟩
    obtain ⟨pieces, rfl, hpieces⟩ := laid_segments_iff.1 hbody
    exact ⟨pieces, gap, rfl, hpieces, hgap⟩
  · rintro ⟨pieces, gap, rfl, hpieces, hgap⟩
    exact ⟨_, gap, rfl, laid_segments_iff.2 ⟨pieces, rfl, hpieces⟩, hgap⟩

/-! ## Delimiters -/

theorem Text.Ignored.plain {gap : Text} (h : gap.Ignored) : gap.Plain := by
  intro c hc
  have hignored := h c hc
  simp only [Part.isIgnored, Bool.or_eq_true, decide_eq_true_eq] at hignored
  rcases hignored with (((rfl | rfl) | rfl) | rfl) | rfl <;> rfl

theorem Text.Spelled.plain {first others : Char → Bool} {t : Text} (h : t.Spelled first others)
    (hfirst : ∀ c, first c = true → Terminal.isInner c = true)
    (hothers : ∀ c, others c = true → Terminal.isInner c = true) : t.Plain := by
  obtain ⟨c, rest, rfl, hc, hrest⟩ := Text.spelled_iff.1 h
  refine Text.plain_cons_iff.2 ⟨Terminal.isInner_iff.1 (hfirst c hc), fun d hd => ?_⟩
  exact Terminal.isInner_iff.1 (hothers d (hrest d hd))

/-- No token holds a delimiter, unless it stands for itself. -/
theorem Token.IsValid.plain {token : Token} (h : token.IsValid)
    (hliteral : ∀ t, token.terminal = .literal t → t.Plain) : token.text.Plain := by
  have hvisible : ∀ c, Terminal.isVisible c = true → Terminal.isInner c = true :=
    fun c hc => (Bool.and_eq_true_iff.1 hc).1
  obtain ⟨terminal, text⟩ := token
  cases terminal with
  | literal t =>
    obtain rfl : text = t := h
    exact hliteral _ rfl
  | groupKeyword =>
    obtain ⟨type, rfl⟩ : ∃ type : GroupType, text = type.keyword := h
    exact type.keyword_plain
  | selector =>
    refine Text.Spelled.plain h (fun c hc => hvisible c ?_) fun _ hc => hc
    exact (Bool.and_eq_true_iff.1 hc).1
  | property =>
    refine Text.Spelled.plain h (fun c hc => hvisible c ?_) fun _ hc =>
      (Bool.and_eq_true_iff.1 hc).1
    exact (Bool.and_eq_true_iff.1 (Bool.and_eq_true_iff.1 hc).1).1
  | value => exact Text.Spelled.plain h (fun _ hc => hc) fun _ hc => hc
  | name => exact Text.Spelled.plain h hvisible hvisible
  | query => exact Text.Spelled.plain h hvisible fun _ hc => hc

theorem Laid.plain {tokens : List Token} {t : Text} (h : Laid tokens t)
    (htokens : ∀ token ∈ tokens, ∀ s, token.terminal = .literal s → Text.Plain s) : t.Plain := by
  induction h with
  | nil => exact Text.plain_nil
  | cons hgap htoken _ ih =>
    obtain ⟨hliteral, htokens⟩ := List.forall_mem_cons.1 htokens
    exact Text.plain_append_iff.2
      ⟨hgap.plain, Text.plain_append_iff.2 ⟨htoken.plain hliteral, ih htokens⟩⟩

theorem Part.plain_of_literal_mem_tokens {part : Part} {token : Token} (h : token ∈ part.tokens)
    {t : Text} (ht : token.terminal = .literal t) : t.Plain := by
  cases part with
  | blank | incomplete => cases h
  | style =>
    obtain rfl := List.mem_singleton.1 h
    cases ht
  | keyframes =>
    simp only [tokens, List.mem_cons, List.not_mem_nil, or_false] at h
    rcases h with rfl | rfl
    · cases ht
      exact keyframesKeyword_plain
    · cases ht
  | group =>
    simp only [tokens, List.mem_cons, List.not_mem_nil, or_false] at h
    rcases h with rfl | rfl
    all_goals cases ht
  | declared =>
    simp only [tokens, List.mem_cons, List.not_mem_nil, or_false] at h
    rcases h with rfl | rfl | rfl
    · cases ht
    · cases ht
      decide
    · cases ht

/-- A piece that shows a segment is cut nowhere. -/
theorem Segment.Shown.plain {segment : Segment} {piece : Piece} (h : segment.Shown piece) :
    piece.text.Plain := by
  obtain ⟨body, gap, heq, hbody, hgap⟩ := h.spread
  rw [heq, Text.plain_append_iff]
  exact ⟨hbody.plain fun _ htoken _ ht => Part.plain_of_literal_mem_tokens htoken ht, hgap.plain⟩

end ScopedStyles
