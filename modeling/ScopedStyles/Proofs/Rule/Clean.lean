import Mathlib.Data.List.Infix
import ScopedStyles.Proofs.Rule.Pieces
import ScopedStyles.Proofs.Source.Tidy

/-!
# Clean rules

A text is clean if a source can hold it as it is: it holds no delimiter and no comment, and no blank
that reading would take away. What clean rules are printed as is tidy, so that each printed piece is
read back as it is.

## Main definitions

* `Text.IsClean`, `Rule.IsClean` — clean texts, and rules all of whose texts are clean.

## Main statements

* `Text.IsClean.tidy` — nothing in a clean text is left out.
* `RuleSet.IsClean.isRead` — a printed rule set is read piece by piece.
* `Source.exists_isRead_keyframes`, `Source.exists_isRead_group` — so is the header of a block.
-/

namespace ScopedStyles

/-- A text that a source can hold as it is. -/
structure Text.IsClean (t : Text) : Prop where
  ne_nil : t ≠ []
  trimmed : t.Trimmed
  chars : ∀ c ∈ t, c ∉ ['{', '}', ';', '\t', '\n', '\r']
  no_double_space : ¬ [' ', ' '] <:+: t
  no_space_after_colon : ¬ [':', ' '] <:+: t
  no_space_before_comma : ¬ [' ', ','] <:+: t
  no_comment : ¬ ['/', '*'] <:+: t

instance (t : Text) : Decidable t.IsClean :=
  have := List.decidableBAll (fun c => c ∉ ['{', '}', ';', '\t', '\n', '\r']) t
  decidable_of_iff (t ≠ [] ∧ t.Trimmed ∧ (∀ c ∈ t, c ∉ ['{', '}', ';', '\t', '\n', '\r']) ∧
      ¬ [' ', ' '] <:+: t ∧ ¬ [':', ' '] <:+: t ∧ ¬ [' ', ','] <:+: t ∧ ¬ ['/', '*'] <:+: t)
    ⟨fun ⟨h, htrimmed, hchars, hdouble, hcolon, hcomma, hcomment⟩ =>
      ⟨h, htrimmed, hchars, hdouble, hcolon, hcomma, hcomment⟩,
    fun ⟨h, htrimmed, hchars, hdouble, hcolon, hcomma, hcomment⟩ =>
      ⟨h, htrimmed, hchars, hdouble, hcolon, hcomma, hcomment⟩⟩

namespace Text.IsClean

variable {t : Text}

theorem plain (h : t.IsClean) : t.Plain := by
  intro c hc
  have hchars := h.chars c hc
  simp only [List.mem_cons, List.not_mem_nil, or_false, not_or] at hchars
  exact Delimiter.ofChar?_eq_none_iff.2 ⟨hchars.2.2.1, hchars.1, hchars.2.1⟩

theorem fits (h : t.IsClean) {a b : Char} (hab : [a, b] <:+: t) : Text.Fits a b where
  no_comment := by
    rintro ⟨rfl, rfl⟩
    exact h.no_comment hab
  no_space := by
    rintro rfl
    have hb : b ∈ t := hab.subset (by simp)
    refine Pending.drawsNear_eq_false (h.plain b hb) ?_
    rintro rfl
    exact h.no_space_before_comma hab
  no_space_after := by
    rintro rfl
    constructor
    · rintro rfl
      exact h.no_double_space hab
    · rintro rfl
      exact h.no_space_after_colon hab

/-- Nothing in a clean text is left out. -/
theorem tidy (h : t.IsClean) : t.Tidy where
  head hhead := absurd (h.trimmed.head ' ' hhead) (by decide)
  plain := h.plain
  blanks c hc hblank := by
    have hchars := h.chars c hc
    simp only [List.mem_cons, List.not_mem_nil, or_false, not_or] at hchars
    simpa [Char.isWhitespace, hchars] using hblank
  fits := (List.isChain_isInfix t).imp fun _ _ hab => h.fits hab

theorem ne_space_of_mem_head? (h : t.IsClean) {c : Char} (hc : c ∈ t.head?) : c ≠ ' ' := by
  rintro rfl
  exact absurd (h.trimmed.head _ hc) (by decide)

theorem ne_space_of_mem_getLast? (h : t.IsClean) {c : Char} (hc : c ∈ t.getLast?) : c ≠ ' ' := by
  rintro rfl
  exact absurd (h.trimmed.last _ hc) (by decide)

end Text.IsClean

/-! ## Declarations and rules -/

/-- A clean property with a clean value. Renaming animations puts single spaces between the words of
a list, which a clean list has already. -/
structure IsCleanDeclaration (property value : Text) : Prop where
  property_clean : property.IsClean
  property_colon : ':' ∉ property
  value_clean : value.IsClean
  animation : property = "animation".toList → Animation.renameValue ∅ property value = value

/-- Clean declarations, of which there is at least one. -/
structure Dictionary.IsClean (d : Dictionary) : Prop where
  ne_nil : d.entries ≠ []
  nodup : d.keys.Nodup
  each : ∀ entry ∈ d.entries, IsCleanDeclaration entry.1 entry.2

/-- A clean selector, which is no at-rule, with clean declarations. -/
structure RuleSet.IsClean (rule : RuleSet) : Prop where
  selector : rule.selector.IsClean
  not_at : rule.selector.head? ≠ some '@'
  declarations : rule.declarations.IsClean

/-- A rule all of whose texts are clean. -/
inductive Rule.IsClean : Rule → Prop
  | ruleSet {rule : RuleSet} (h : rule.IsClean) : IsClean (.ruleSet rule)
  | keyframes {identifier : Text} {steps : List RuleSet} (hidentifier : identifier.IsClean)
      (hsteps : ∀ step ∈ steps, step.IsClean) : IsClean (.keyframes identifier steps)
  | group {type : GroupType} {query : Text} {rules : List Rule} (hquery : query.IsClean)
      (hrules : ∀ rule ∈ rules, rule.IsClean) : IsClean (.group type query rules)

namespace IsCleanDeclaration

variable {property value : Text}

/-- Without animations to rename, a value is printed as it is. -/
theorem renameValue_eq (h : IsCleanDeclaration property value) :
    Animation.renameValue ∅ property value = value := by
  by_cases hproperty : property = "animation".toList
  · exact h.animation hproperty
  · rw [Animation.renameValue, if_neg hproperty]
    split
    · rfl
    · rfl

theorem declares (h : IsCleanDeclaration property value) :
    Declares (property ++ ':' :: value) property value where
  exists_cut := ⟨property, value, rfl, h.property_colon,
    Text.trim_eq_self h.property_clean.trimmed, Text.trim_eq_self h.value_clean.trimmed⟩
  property_ne_nil := h.property_clean.ne_nil
  value_ne_nil := h.value_clean.ne_nil

theorem tidy (h : IsCleanDeclaration property value) : Text.Tidy (property ++ ':' :: value) := by
  have hcolon : Text.Tidy (property ++ [':']) := by
    refine h.property_clean.tidy.append (by decide) fun a ha b hb => ?_
    obtain rfl : ':' = b := by simpa using hb
    exact ⟨⟨by simp, fun _ => rfl⟩, by simp⟩
  have hwhole : Text.Tidy ((property ++ [':']) ++ value) := by
    refine hcolon.append h.value_clean.tidy fun a ha b hb => ?_
    obtain rfl : ':' = a := by simpa using ha
    exact ⟨⟨by simp, by simp⟩, fun hspace => absurd hspace (h.value_clean.ne_space_of_mem_head? hb)⟩
  simpa using hwhole

theorem trimmed (h : IsCleanDeclaration property value) :
    Text.Trimmed (property ++ ':' :: value) where
  head c hc := by
    rw [List.head?_append_of_ne_nil _ h.property_clean.ne_nil] at hc
    exact h.property_clean.trimmed.head c hc
  last c hc := by
    rw [List.getLast?_append_of_ne_nil _ (by simp), List.getLast?_cons_of_ne_nil
      h.value_clean.ne_nil] at hc
    exact h.value_clean.trimmed.last c hc

end IsCleanDeclaration

/-! ## Reading what is printed -/

namespace Source

theorem IsRead.written {pieces : List Piece}
    (h : ∀ piece ∈ pieces, piece.text.Tidy ∧ piece.text.Trimmed) :
    IsRead (pieces.flatMap Piece.written) pieces := by
  induction pieces with
  | nil => exact .nil
  | cons piece pieces ih =>
    obtain ⟨⟨htidy, htrimmed⟩, hpieces⟩ := List.forall_mem_cons.1 h
    exact (IsRead.tidy htidy htrimmed piece.delimiter).append (ih hpieces)

theorem isRead_closeBrace : IsRead ['}'] [⟨[], .closeBrace⟩] :=
  IsRead.tidy (t := []) (by decide) (by decide) .closeBrace

/-- The header of a block that a keyword opens is read up to the blanks after the keyword, and a
space before the brace is left out. -/
theorem exists_isRead_header {keyword name : Text} (hkeyword : Text.Tidy (keyword ++ [' ']))
    (htrim : keyword.Trimmed) (h : name.IsClean) {space : Text}
    (hspace : space = [] ∨ space = [' ']) :
    ∃ gap : Text, (∀ c ∈ gap, Text.isBlank c = true) ∧
      IsRead (keyword ++ ' ' :: name ++ space ++ ['{'])
        [⟨keyword ++ (gap ++ name), .openBrace⟩] := by
  have hkeeps : ∀ d : Char, d ≠ '*' → ∀ c ∈ name.getLast?, ∀ e ∈ some d, Text.Keeps c e := by
    intro d hd c hc e he
    obtain rfl := Option.mem_some_iff.1 he
    exact ⟨fun hcomment => hd hcomment.2, fun hc' => absurd hc' (h.ne_space_of_mem_getLast? hc)⟩
  have hne : keyword ≠ [] := by
    rintro rfl
    exact hkeyword.head rfl
  have hname : Text.Plain (keyword ++ ' ' :: name) := by
    rw [← List.singleton_append, ← List.append_assoc, Text.plain_append_iff]
    exact ⟨hkeyword.plain, h.plain⟩
  have htrimmed : ∀ gap : Text, Text.Trimmed (keyword ++ (gap ++ name)) := by
    intro gap
    constructor
    · rw [List.head?_append_of_ne_nil _ hne]
      exact htrim.head
    · rw [← List.append_assoc, List.getLast?_append_of_ne_nil _ h.ne_nil]
      exact h.trimmed.last
  rcases hspace with rfl | rfl
  · obtain ⟨gap, hgap, hafter⟩ := Pending.after_keyword hkeyword h.tidy h.ne_nil
      (hkeeps '{' (by decide))
    refine ⟨gap, hgap, ?_⟩
    have hread := IsRead.concat hname rfl .openBrace hafter
    rw [Pending.text_ofText, Text.trim_eq_self (htrimmed gap)] at hread
    simpa [Delimiter.char] using hread
  · obtain ⟨gap, hgap, hafter⟩ := Pending.after_keyword hkeyword h.tidy h.ne_nil
      (hkeeps ' ' (by decide))
    refine ⟨gap, hgap, ?_⟩
    have hspace : Pending.after {} (some '{') (keyword ++ ' ' :: name ++ [' ']) =
        { Pending.ofText (keyword ++ (gap ++ name)) with tight := true } := by
      rw [Pending.after_append, List.head?_cons, Option.some_or, hafter, Pending.after,
        List.head?_nil, Option.none_or]
      exact Pending.read_space rfl (by decide)
    have hplain : Text.Plain (keyword ++ ' ' :: name ++ [' ']) :=
      Text.plain_append_iff.2 ⟨hname, by decide⟩
    have hread := IsRead.concat hplain rfl .openBrace hspace
    have htext : Pending.text { Pending.ofText (keyword ++ (gap ++ name)) with tight := true } =
        keyword ++ (gap ++ name) := Pending.text_ofText _
    rwa [htext, Text.trim_eq_self (htrimmed gap)] at hread

theorem exists_isRead_keyframes {name : Text} (h : name.IsClean) :
    ∃ text, Heads text (.keyframes name) ∧
      IsRead (keyframesKeyword ++ ' ' :: name ++ ['{']) [⟨text, .openBrace⟩] := by
  have hkeyword : Text.Tidy (keyframesKeyword ++ [' ']) := by
    rw [keyframesKeyword_eq]
    decide
  obtain ⟨gap, hgap, hread⟩ :=
    exists_isRead_header hkeyword (by rw [keyframesKeyword_eq]; decide) h (.inl rfl)
  have htrim : Text.trim (gap ++ name) = name := by
    simpa using Text.trim_eq_of_blank (b := []) hgap h.trimmed (by simp)
  have hheads := Heads.keyframes (gap ++ name)
  rw [htrim] at hheads
  exact ⟨keyframesKeyword ++ (gap ++ name), hheads, by simpa using hread⟩

theorem exists_isRead_group (type : GroupType) {query : Text} (h : query.IsClean) :
    ∃ text, Heads text (.group type query) ∧
      IsRead (type.keyword ++ ' ' :: query ++ [' ', '{']) [⟨text, .openBrace⟩] := by
  have hkeyword : Text.Tidy (type.keyword ++ [' ']) := by
    cases type
    · rw [GroupType.keyword_media]
      decide
    · rw [GroupType.keyword_supports]
      decide
  have htrimmed : type.keyword.Trimmed := by
    cases type
    · rw [GroupType.keyword_media]
      decide
    · rw [GroupType.keyword_supports]
      decide
  obtain ⟨gap, hgap, hread⟩ := exists_isRead_header hkeyword htrimmed h (.inr rfl)
  have htrim : Text.trim (gap ++ query) = query := by
    simpa using Text.trim_eq_of_blank (b := []) hgap h.trimmed (by simp)
  have hheads := Heads.group type (gap ++ query)
  rw [htrim] at hheads
  exact ⟨type.keyword ++ (gap ++ query), hheads, by simpa using hread⟩

end Source

/-- A printed rule set is read piece by piece. -/
theorem RuleSet.IsClean.isRead {rule : RuleSet} (h : rule.IsClean) :
    Source.IsRead (rule.text ∅) (rule.pieces ∅) := by
  rw [RuleSet.text_eq_written]
  refine Source.IsRead.written (List.forall_mem_cons.2 ⟨⟨h.selector.tidy, h.selector.trimmed⟩, ?_⟩)
  refine List.forall_mem_append.2 ⟨fun piece hpiece => ?_, ?_⟩
  · obtain ⟨entry, hentry, rfl⟩ := List.mem_map.1 hpiece
    have hdeclaration := h.declarations.each entry hentry
    rw [hdeclaration.renameValue_eq]
    exact ⟨hdeclaration.tidy, hdeclaration.trimmed⟩
  · exact List.forall_mem_singleton.2 ⟨by decide, by decide⟩

end ScopedStyles
