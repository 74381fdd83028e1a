import ScopedStyles.Proofs.Grammar.Piece

/-!
# The grammar is unambiguous

A row of pieces is the content of a level in at most one way. Since a content ends in front of a
closing brace that it does not own, it is also known where it ends.

## Main statements

* `Derives.unique_append` — two contents at the front of one row of pieces are one and end together.
* `Source.Says.unique` — a source has at most one content.
-/

namespace ScopedStyles

/-- A text is the head of at most one kind of block. -/
theorem Heads.unique {text : Text} {head head' : Head} (h : Heads text head)
    (h' : Heads text head') : head = head' := by
  have hheader := h.ofText.symm.trans h'.ofText
  cases head with
  | selector part =>
    cases head' with
    | selector part' => rw [h.eq_of_selector, h'.eq_of_selector]
    | keyframes _ => cases hheader
    | group _ _ => cases hheader
  | keyframes name =>
    cases head' with
    | selector _ => cases hheader
    | keyframes name' => exact congrArg Head.keyframes (Header.keyframes.inj hheader)
    | group _ _ => cases hheader
  | group type query =>
    cases head' with
    | selector _ => cases hheader
    | keyframes _ => cases hheader
    | group type' query' =>
      obtain ⟨rfl, rfl⟩ := Header.group.inj hheader
      rfl

theorem Level.Holds.unique {level inside inside' : Level} {head : Head}
    (h : level.Holds head inside) (h' : level.Holds head inside') : inside = inside' := by
  cases h <;> cases h' <;> rfl

/-- Two contents at the front of one row of pieces are one, and they end at the same brace. -/
theorem Derives.unique_append {level : Level} {c c' : Content} {pieces pieces' : List Piece}
    {last last' : Text} (h : Derives level c pieces last) (h' : Derives level c' pieces' last')
    {rest rest' : List Piece}
    (hrow : pieces ++ ⟨last, .closeBrace⟩ :: rest = pieces' ++ ⟨last', .closeBrace⟩ :: rest') :
    c = c' ∧ pieces = pieces' ∧ last = last' ∧ rest = rest' := by
  induction h generalizing c' pieces' last' rest rest' with
  | nil =>
    cases h' with
    | nil => simpa using hrow
    | last h => simp_all [not_declares_nil]
    | declaration => simp at hrow
    | block => simp at hrow
  | last hdeclares =>
    cases h' with
    | nil => simp_all [not_declares_nil]
    | last h =>
      obtain ⟨rfl, rfl⟩ : _ ∧ rest = rest' := by simpa using hrow
      obtain ⟨rfl, rfl⟩ := hdeclares.unique h
      simp
    | declaration => simp at hrow
    | block => simp at hrow
  | declaration hdeclares _ ih =>
    cases h' with
    | nil => simp at hrow
    | last => simp at hrow
    | declaration h hrest =>
      simp only [List.cons_append, List.cons.injEq, Piece.mk.injEq, and_true] at hrow
      obtain ⟨rfl, hrow⟩ := hrow
      obtain ⟨rfl, rfl⟩ := hdeclares.unique h
      obtain ⟨rfl, rfl, rfl, rfl⟩ := ih hrest hrow
      simp
    | block => simp at hrow
  | block hhead hholds _ _ ihinner ihrest =>
    cases h' with
    | nil => simp at hrow
    | last => simp at hrow
    | declaration => simp at hrow
    | block h hholds' hinner hrest =>
      simp only [List.cons_append, List.cons.injEq, Piece.mk.injEq, and_true,
        List.append_assoc] at hrow
      obtain ⟨rfl, hrow⟩ := hrow
      obtain rfl := hhead.unique h
      obtain rfl := hholds.unique hholds'
      obtain ⟨rfl, rfl, rfl, hafter⟩ := ihinner hinner hrow
      obtain ⟨rfl, rfl, rfl, rfl⟩ := ihrest hrest hafter
      simp

/-- A source has at most one content. -/
theorem Source.Says.unique {source : Text} {c c' : Content} (h : Source.Says source c)
    (h' : Source.Says source c') : c = c' := by
  have hrow := Eq.refl (pieces source ++ [⟨lastPiece source, .closeBrace⟩])
  exact (Derives.unique_append h h' hrow).1

end ScopedStyles
