import ScopedStyles.Proofs.Grammar.Agreement

/-!
# Two readings of a source

A source is read under two scopes. Whether the next chunk is a fault depends on where a draft stands
and not on what it holds, so the two drafts stand at the same level after every chunk, within the
same levels, and the first fault of the one is the first fault of the other.

## Main definitions

* `Draft.Aligned` — drafts that stand at the same level.
* `Draft.SameEnd` — results that are aligned drafts or the same fault.

## Main statements

* `Draft.Aligned.read` — a chunk leaves the drafts aligned or is the same fault to both.
* `Source.tree_eq_error` — a source is faulty under all scopes, in the same way.
-/

namespace ScopedStyles

variable {scope scope' text : Text} {d d' : Draft}

namespace Draft

/-- Two drafts stand at the same level, within the same levels. -/
structure Aligned (d d' : Draft) : Prop where
  level : d.level = d'.level
  around : d.around = d'.around

/-- Two results are aligned drafts, or the same fault. -/
inductive SameEnd {ε : Type} : Except ε Draft → Except ε Draft → Prop
  | ok {d d' : Draft} (h : d.Aligned d') : SameEnd (.ok d) (.ok d')
  | error (fault : ε) : SameEnd (.error fault) (.error fault)

namespace Aligned

theorem insert (h : d.Aligned d') (property value : Text) :
    (d.insert property value).Aligned (d'.insert property value) where
  level := by simp [h.level]
  around := by simp [h.around]

theorem declare (h : d.Aligned d') (text : Text) : SameEnd (d.declare text) (d'.declare text) := by
  unfold Draft.declare
  cases Source.declaration? text with
  | none => exact .error _
  | some declaration => exact .ok (h.insert ..)

theorem declareLast (h : d.Aligned d') (text : Text) :
    SameEnd (d.declareLast text) (d'.declareLast text) := by
  unfold Draft.declareLast
  split
  · exact .ok h
  · exact h.declare _

theorem enter (h : d.Aligned d') {head : Head} {inside : Level}
    (hholds : d.level.Holds head inside) :
    (d.enter scope head).Aligned (d'.enter scope' head) where
  level := by rw [level_enter hholds, level_enter (h.level ▸ hholds)]
  around := by rw [around_enter hholds, around_enter (h.level ▸ hholds), h.level, h.around]

/-- A header that opens no block at a level is the same fault in all drafts there. -/
theorem openBlock_error (h : d.Aligned d') {fault : Fault}
    (hfault : d.openBlock scope text = .error fault) : d'.openBlock scope' text = .error fault := by
  obtain ⟨body, place, groups, keyframes⟩ := d
  obtain ⟨body', place', groups', keyframes'⟩ := d'
  have hlevel := h.level
  unfold Draft.openBlock at hfault ⊢
  split at hfault
  · next hempty => rwa [if_pos hempty]
  · next hne =>
    rw [if_neg hne]
    rcases place with _ | _ | ⟨_, _, _ | _⟩ <;> rcases place' with _ | _ | ⟨_, _, _ | _⟩ <;>
      cases hlevel <;> cases hheader : Header.ofText text <;> simp_all

theorem openBlock (h : d.Aligned d') (text : Text) :
    SameEnd (d.openBlock scope text) (d'.openBlock scope' text) := by
  cases hopen : d.openBlock scope text with
  | error fault =>
    rw [h.openBlock_error hopen]
    exact .error fault
  | ok d₁ =>
    obtain ⟨head, inside, hhead, hholds, rfl⟩ := openBlock_eq_ok_iff.1 hopen
    have hopen' : d'.openBlock scope' text = .ok (d'.enter scope' head) :=
      openBlock_eq_ok_iff.2 ⟨head, inside, hhead, h.level ▸ hholds, rfl⟩
    rw [hopen']
    exact .ok (h.enter hholds)

theorem closeBlock (h : d.Aligned d') (hne : d.around ≠ []) :
    (d.closeBlock scope).Aligned (d'.closeBlock scope') := by
  obtain ⟨outer, levels, haround⟩ := List.exists_cons_of_ne_nil hne
  have haround' := h.around ▸ haround
  constructor
  · rw [level_closeBlock haround, level_closeBlock haround']
  · rw [around_closeBlock haround, around_closeBlock haround']

/-- A chunk leaves the drafts aligned, or it is the same fault to both. -/
theorem read (h : d.Aligned d') (text : Text) (delimiter : Delimiter) :
    SameEnd (d.read scope text delimiter) (d'.read scope' text delimiter) := by
  cases delimiter with
  | semicolon => exact h.declare text
  | openBrace => exact h.openBlock text.trim
  | closeBrace =>
    rw [Draft.read, Draft.read, atTop_eq, atTop_eq, ← h.around]
    split
    · exact .error _
    · next hne =>
      have hlast := h.declareLast text
      generalize hd : d.declareLast text = result at hlast ⊢
      generalize d'.declareLast text = result' at hlast ⊢
      cases hlast with
      | error fault => exact .error fault
      | ok h₁ => exact .ok (h₁.closeBlock (by simpa [around_of_declareLast hd] using hne))

theorem readAll (h : d.Aligned d') (chunks : List Chunk) :
    SameEnd (d.readAll scope chunks) (d'.readAll scope' chunks) := by
  induction chunks generalizing d d' with
  | nil => exact .ok h
  | cons chunk chunks ih =>
    have hstep : SameEnd (d.read scope chunk.text chunk.delimiter)
        (d'.read scope' chunk.text chunk.delimiter) := h.read ..
    rw [Draft.readAll, Draft.readAll]
    generalize d.read scope chunk.text chunk.delimiter = result at hstep ⊢
    generalize d'.read scope' chunk.text chunk.delimiter = result' at hstep ⊢
    cases hstep with
    | error fault => exact .error _
    | ok h₁ => exact ih h₁

theorem finish_error (h : d.Aligned d') {fault : Fault}
    (hfault : d.finish scope text = .error fault) : d'.finish scope' text = .error fault := by
  rw [finish, atTop_eq] at hfault ⊢
  rw [← h.around]
  split at hfault
  · next htop =>
    have hlast := h.declareLast text
    generalize d.declareLast text = result at hlast hfault
    generalize d'.declareLast text = result' at hlast ⊢
    cases hlast with
    | error fault' => rw [if_pos htop]; exact hfault
    | ok h₁ => cases hfault
  · next htop => rwa [if_neg htop]

end Aligned

end Draft

/-- The first fault of a source is the same under all scopes. -/
theorem Source.tree_eq_error {source : Text} {failure : Fault × Nat}
    (h : Source.tree scope source = .error failure) :
    Source.tree scope' source = .error failure := by
  have hall : Draft.SameEnd (Draft.readAll scope {} (chunks source))
      (Draft.readAll scope' {} (chunks source)) :=
    Draft.Aligned.readAll ⟨rfl, rfl⟩ (chunks source)
  obtain ⟨fault, offset⟩ := failure
  rw [tree_eq_error_iff] at h ⊢
  generalize Draft.readAll scope' {} (chunks source) = result at hall ⊢
  rcases h with hread | ⟨hoffset, d, hread, hfinish⟩
  · rw [hread] at hall
    cases hall
    exact .inl rfl
  · rw [hread] at hall
    cases hall with
    | ok haligned => exact .inr ⟨hoffset, _, rfl, haligned.finish_error hfinish⟩

end ScopedStyles
