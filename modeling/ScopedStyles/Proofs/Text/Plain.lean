import ScopedStyles.Delimiter

/-!
# Plain texts

A text without delimiters is cut nowhere.

## Main definitions

* `Text.Plain` — a text without delimiters.

## Main statements

* `Chunk.cutFrom_plain`, `Chunk.restFrom_plain` — a plain text is gathered as a whole.
-/

namespace ScopedStyles

/-- A text without delimiters. -/
def Text.Plain (t : Text) : Prop :=
  ∀ c ∈ t, Delimiter.ofChar? c = none

namespace Text

instance (t : Text) : Decidable t.Plain :=
  List.decidableBAll _ t

@[simp] theorem plain_nil : Plain [] := by
  simp [Plain]

@[simp] theorem plain_cons_iff {c : Char} {t : Text} :
    Plain (c :: t) ↔ Delimiter.ofChar? c = none ∧ t.Plain :=
  List.forall_mem_cons

@[simp] theorem plain_append_iff {a b : Text} : Plain (a ++ b) ↔ a.Plain ∧ b.Plain :=
  List.forall_mem_append

theorem Plain.of_subset {s t : Text} (h : t.Plain) (hs : s ⊆ t) : s.Plain :=
  fun c hc => h c (hs hc)

end Text

namespace Chunk

theorem cutFrom_plain {t : Text} (ht : t.Plain) (gathered : Text) (offset : Nat) (rest : Text) :
    cutFrom gathered offset (t ++ rest) =
      cutFrom (t.reverse ++ gathered) (offset + t.length) rest := by
  induction t generalizing gathered offset with
  | nil => rfl
  | cons c t ih =>
    obtain ⟨hc, ht⟩ := Text.plain_cons_iff.1 ht
    have hlength : offset + 1 + t.length = offset + (t.length + 1) := by omega
    simp [cutFrom, hc, ih ht, hlength]

theorem restFrom_plain {t : Text} (ht : t.Plain) (gathered rest : Text) :
    restFrom gathered (t ++ rest) = restFrom (t.reverse ++ gathered) rest := by
  induction t generalizing gathered with
  | nil => rfl
  | cons c t ih =>
    obtain ⟨hc, ht⟩ := Text.plain_cons_iff.1 ht
    simp [restFrom, hc, ih ht]

end Chunk

end ScopedStyles
