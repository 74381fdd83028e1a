import ScopedStyles.Proofs.Grammar.Derivation
import ScopedStyles.Proofs.Source.Glued
import ScopedStyles.Proofs.Text.Trim

/-!
# The texts of a content

Each text of a content is cut out of one text of the source. So what holds of all texts of the
source, and with a text of every part of it, holds of all texts of the content.

## Main definitions

* `Content.Forall` — a property of all texts of a content.

## Main statements

* `Source.Says.forall_texts` — what the texts of a content have from those of the source.
-/

namespace ScopedStyles

/-- The text of a head. -/
def Head.text : Head → Text
  | .selector text => text
  | .keyframes name => name
  | .group _ query => query

variable {text property value : Text}

theorem Declares.isInfix_property (h : Declares text property value) : property <:+: text := by
  obtain ⟨⟨before, after, rfl, -, rfl, -⟩, -, -⟩ := h
  exact (Text.isInfix_trim before).trans (List.prefix_append before _).isInfix

theorem Declares.isInfix_value (h : Declares text property value) : value <:+: text := by
  obtain ⟨⟨before, after, rfl, -, -, rfl⟩, -, -⟩ := h
  have hafter : after <:+ before ++ ':' :: after :=
    (List.suffix_cons ':' after).trans (List.suffix_append before _)
  exact (Text.isInfix_trim after).trans hafter.isInfix

theorem Heads.isInfix_text {head : Head} (h : Heads text head) : head.text <:+: text := by
  cases h with
  | selector _ _ => exact List.infix_rfl
  | keyframes name => exact (Text.isInfix_trim name).trans (List.suffix_append _ name).isInfix
  | group type query => exact (Text.isInfix_trim query).trans (List.suffix_append _ query).isInfix

variable {Q : Text → Prop}

/-- All texts of a content have a property. -/
inductive Content.Forall (Q : Text → Prop) : Content → Prop
  | nil : Forall Q .nil
  | declaration {property value : Text} {rest : Content} (hproperty : Q property) (hvalue : Q value)
      (hrest : Forall Q rest) : Forall Q (.declaration property value rest)
  | block {head : Head} {inner rest : Content} (h : Q head.text) (hinner : Forall Q inner)
      (hrest : Forall Q rest) : Forall Q (.block head inner rest)

/-- What every part of a text has with it goes from the pieces to the texts of the content. -/
theorem Derives.forall_texts (hQ : ∀ s t : Text, Q t → s <:+: t → Q s) {level : Level}
    {c : Content} {pieces : List Piece} {last : Text} (h : Derives level c pieces last)
    (hpieces : ∀ piece ∈ pieces, Q piece.text) (hlast : Q last) : c.Forall Q := by
  induction h with
  | nil => exact .nil
  | last h =>
    exact .declaration (hQ _ _ hlast h.isInfix_property) (hQ _ _ hlast h.isInfix_value) .nil
  | declaration h _ ih =>
    obtain ⟨hpiece, hpieces⟩ := List.forall_mem_cons.1 hpieces
    exact .declaration (hQ _ _ hpiece h.isInfix_property) (hQ _ _ hpiece h.isInfix_value)
      (ih hpieces hlast)
  | block h _ _ _ ihinner ihrest =>
    simp only [List.forall_mem_cons, List.forall_mem_append] at hpieces
    obtain ⟨hhead, hinner, hend, hrest⟩ := hpieces
    exact .block (hQ _ _ hhead h.isInfix_text) (ihinner hinner hend) (ihrest hrest hlast)

/-- What every part of a text has with it goes from the texts of a source to those of its
content. -/
theorem Source.Says.forall_texts (hQ : ∀ s t : Text, Q t → s <:+: t → Q s) {source : Text}
    {c : Content} (h : Source.Says source c) (htexts : ∀ text ∈ texts source, Q text) :
    c.Forall Q := by
  obtain ⟨hchunks, hremainder⟩ := List.forall_mem_append.1 htexts
  refine Derives.forall_texts hQ h (fun piece hpiece => ?_) ?_
  · obtain ⟨chunk, hchunk, rfl⟩ := List.mem_map.1 hpiece
    exact hQ _ _ (hchunks _ (List.mem_map_of_mem hchunk)) (Text.isInfix_trim chunk.text)
  · exact hQ _ _ (List.forall_mem_singleton.1 hremainder) (Text.isInfix_trim _)

end ScopedStyles
