import Mathlib.Data.List.Basic
import ScopedStyles.Proofs.Grammar.Derivation
import ScopedStyles.Proofs.Text.Trim
import ScopedStyles.Source.Header

/-!
# What a single piece says

A text is read as a declaration, or as the head of a block, exactly when the grammar takes it for
one. Blanks at its ends make no difference to a declaration.

## Main statements

* `Source.declaration?_eq_some_iff` — which texts are declarations.
* `Heads.ofText`, `exists_heads` — which texts are heads.
-/

namespace ScopedStyles

/-! ## Declarations -/

theorem Source.declaration?_eq_some_iff {text property value : Text} :
    declaration? text = some (property, value) ↔ Declares text property value := by
  constructor
  · intro h
    unfold declaration? at h
    split at h
    · simp at h
    · next before after hcut =>
      obtain ⟨rfl, hcolon⟩ := Text.cutAt?_eq_some_iff.1 hcut
      simp only [Option.ite_none_left_eq_some, not_or, Option.some.injEq, Prod.mk.injEq] at h
      obtain ⟨⟨hproperty, hvalue⟩, rfl, rfl⟩ := h
      exact ⟨⟨before, after, rfl, hcolon, rfl, rfl⟩, hproperty, hvalue⟩
  · rintro ⟨⟨before, after, rfl, hcolon, rfl, rfl⟩, hproperty, hvalue⟩
    simp [declaration?, Text.cutAt?_eq_some_iff.2 ⟨rfl, hcolon⟩, hproperty, hvalue]

/-- A text has one first colon. -/
theorem Declares.unique {text p v q w : Text} (h : Declares text p v) (h' : Declares text q w) :
    p = q ∧ v = w := by
  rw [← Source.declaration?_eq_some_iff] at h h'
  simpa using h.symm.trans h'

theorem not_declares_nil (property value : Text) : ¬ Declares [] property value := by
  rintro ⟨⟨before, after, hcut, -⟩, -, -⟩
  simp at hcut

/-- Blanks around a declaration make no difference. -/
theorem declares_trim_iff {text property value : Text} :
    Declares text.trim property value ↔ Declares text property value := by
  obtain ⟨a, b, htext, ha, hb⟩ := Text.exists_eq_trim text
  have hgrow : ∀ {p v}, Declares text.trim p v → Declares text p v := by
    rintro p v ⟨⟨before, after, htrim, hcolon, rfl, rfl⟩, hp, hv⟩
    refine ⟨⟨a ++ before, after ++ b, by rw [htext, htrim]; simp, ?_, ?_, ?_⟩, hp, hv⟩
    · rw [List.mem_append, not_or]
      exact ⟨fun h => absurd (ha _ h) (by decide), hcolon⟩
    · simpa using Text.trim_append_of_blank ha (b := []) (by simp) before
    · simpa using Text.trim_append_of_blank (a := []) (by simp) hb after
  refine ⟨hgrow, fun h => ?_⟩
  -- The colon is no blank, so it survives the trimming and the text still has a first one.
  obtain ⟨⟨before, after, hcut, hcolon, rfl, rfl⟩, hp, hv⟩ := h
  have hmem : ':' ∈ text.trim := by
    have : ':' ∈ a ++ text.trim ++ b := htext ▸ hcut ▸ by simp
    simp only [List.mem_append] at this
    rcases this with (h | h) | h
    · exact absurd (ha _ h) (by decide)
    · exact h
    · exact absurd (hb _ h) (by decide)
  obtain ⟨before', after', htrim, hcolon'⟩ := List.eq_append_cons_of_mem hmem
  have heq : text.cutAt? ':' = some (a ++ before', after' ++ b) := by
    refine Text.cutAt?_eq_some_iff.2 ⟨by rw [htext, htrim]; simp, ?_⟩
    rw [List.mem_append, not_or]
    exact ⟨fun h => absurd (ha _ h) (by decide), hcolon'⟩
  rw [Text.cutAt?_eq_some_iff.2 ⟨hcut, hcolon⟩] at heq
  obtain ⟨rfl, rfl⟩ := Prod.mk.inj (Option.some.inj heq)
  refine ⟨⟨before', after', htrim, hcolon', ?_, ?_⟩, hp, hv⟩
  · simpa using (Text.trim_append_of_blank ha (b := []) (by simp) before').symm
  · simpa using (Text.trim_append_of_blank (a := []) (by simp) hb after').symm

/-! ## Heads -/

/-- What a header says about a head. -/
def Head.header : Head → Header
  | .selector _ => .selector
  | .keyframes name => .keyframes name
  | .group type query => .group type query

theorem Heads.ne_nil {text : Text} {head : Head} (h : Heads text head) : text ≠ [] := by
  cases h with
  | selector hne => exact hne
  | keyframes name => simp [keyframesKeyword_eq]
  | group type query => cases type <;> simp [GroupType.keyword_media, GroupType.keyword_supports]

theorem Heads.eq_of_selector {text selector : Text} (h : Heads text (.selector selector)) :
    selector = text := by
  cases h
  rfl

theorem Heads.ofText {text : Text} {head : Head} (h : Heads text head) :
    Header.ofText text = head.header := by
  cases h with
  | selector _ hat => exact Header.ofText_selector hat
  | keyframes name => exact Header.ofText_keyframes name
  | group type query => exact Header.ofText_group type query

/-- A header that is no unknown at-rule has a head. -/
theorem exists_heads {text : Text} (hne : text ≠ []) (h : Header.ofText text ≠ .unknown) :
    ∃ head, Heads text head := by
  unfold Header.ofText at h
  split at h
  · next rest hrest =>
    obtain rfl := List.isPrefixOf?_eq_some_iff_append_eq.1 hrest
    exact ⟨_, .keyframes rest⟩
  split at h
  · next rest hrest =>
    obtain rfl := List.isPrefixOf?_eq_some_iff_append_eq.1 hrest
    exact ⟨_, .group .media rest⟩
  split at h
  · next rest hrest =>
    obtain rfl := List.isPrefixOf?_eq_some_iff_append_eq.1 hrest
    exact ⟨_, .group .supports rest⟩
  split at h
  · exact absurd rfl h
  · next hat => exact ⟨_, .selector hne hat⟩

end ScopedStyles
