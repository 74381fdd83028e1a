import ScopedStyles.Proofs.Rule.Characters
import ScopedStyles.Proofs.Text.Framed

/-!
# Printed rules are framed

Whatever a source holds, each of its rules is printed on one line and as a single block, as long as
this is not spoilt by the scope: the texts of a rule are on one line and without braces, and its
blocks lie in each other as they do in the tree.

## Main statements

* `Rule.framed_text` — a rule whose texts are inline is printed as a framed text.
* `framed_of_parse` — the rules of a source are framed.
-/

namespace ScopedStyles

/-! ## Rules -/

section

variable {names : Dictionary}

theorem RuleSet.framed_text {rule : RuleSet}
    (h : ∀ piece ∈ rule.pieces names, piece.text.Inline) : (rule.text names).Framed := by
  obtain ⟨hselector, hrest⟩ := List.forall_mem_cons.1 h
  obtain ⟨hpieces, -⟩ := List.forall_mem_append.1 hrest
  have hbody : (rule.declarations.declarationText names).Inline := by
    rw [Dictionary.declarationText_eq_written]
    intro c hc
    obtain ⟨piece, hpiece, hc⟩ := List.mem_flatMap.1 hc
    rcases List.mem_append.1 hc with hc | hc
    · exact hpieces piece hpiece c hc
    · obtain ⟨entry, -, rfl⟩ := List.mem_map.1 hpiece
      obtain rfl : c = ';' := List.mem_singleton.1 hc
      decide
  exact Text.framed_block hselector hbody.balanced hbody.newline_notMem

mutual

/-- A rule whose texts are inline is printed as a framed text. -/
theorem Rule.framed_text {rule : Rule} (h : ∀ piece ∈ rule.pieces names, piece.text.Inline) :
    (rule.text names).Framed := by
  cases rule with
  | ruleSet rule => exact RuleSet.framed_text h
  | keyframes identifier steps =>
    obtain ⟨hheader, hrest⟩ := List.forall_mem_cons.1 h
    obtain ⟨hsteps, -⟩ := List.forall_mem_append.1 hrest
    apply Text.framed_block_flatMap hheader
    intro step hstep
    apply RuleSet.framed_text
    exact fun piece hpiece => hsteps piece (List.mem_flatMap.2 ⟨step, hstep, hpiece⟩)
  | group type query rules =>
    obtain ⟨hheader, hrest⟩ := List.forall_mem_cons.1 h
    obtain ⟨hrules, -⟩ := List.forall_mem_append.1 hrest
    have hframed := Text.framed_block_flatMap hheader (Rule.framed_texts hrules)
    simpa [Rule.text, Rule.bodyText_eq_flatMap] using hframed

theorem Rule.framed_texts {rules : List Rule}
    (h : ∀ piece ∈ Rule.bodyPieces names rules, piece.text.Inline) :
    ∀ rule ∈ rules, (rule.text names).Framed := by
  cases rules with
  | nil => exact List.forall_mem_nil _
  | cons rule rules =>
    obtain ⟨hrule, hrules⟩ := List.forall_mem_append.1 h
    exact List.forall_mem_cons.2 ⟨Rule.framed_text hrule, Rule.framed_texts hrules⟩

end

end

/-! ## Sources -/

theorem IsOrdinary.inline {c : Char} (h : IsOrdinary c) : c ≠ '\n' ∧ c ≠ '{' ∧ c ≠ '}' := by
  refine ⟨?_, ?_, ?_⟩
  · rintro rfl
    exact absurd (h.2 rfl) (by decide)
  · rintro rfl
    exact absurd h.1 (by decide)
  · rintro rfl
    exact absurd h.1 (by decide)

variable {scope source : Text} {tree : RuleTree}

/-- The rules of a source are framed, whatever it holds. -/
theorem framed_of_parse (hscope : scope.Inline) (h : parse scope source = .ok tree) :
    ∀ rule ∈ tree.texts, rule.Framed := by
  have hpieces := (wellFormed_of_parse h).forall_mem_pieces (fun _ => IsOrdinary.inline) hscope
  exact List.forall_mem_map.2 fun rule hrule => Rule.framed_text (hpieces rule hrule)

end ScopedStyles
