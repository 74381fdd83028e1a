import ScopedStyles.Proofs.Grammar.Derivation
import ScopedStyles.Proofs.Text.Plain
import ScopedStyles.Rule.Printer

/-!
# The pieces of a printed rule

A printed rule is a row of pieces, each with its delimiter after it. As long as no text of the rule
holds a delimiter, cutting the printed rule at its delimiters gives these pieces back.

## Main definitions

* `Piece.written` — a piece with its delimiter.
* `Rule.pieces` — what a rule is printed as.

## Main statements

* `Rule.text_eq_written` — a printed rule is its pieces as they are written.
* `Chunk.cutFrom_written` — the first piece of a text is what cutting cuts off.
-/

namespace ScopedStyles

/-- A piece as it is written. -/
def Piece.written (piece : Piece) : Text :=
  piece.text ++ [piece.delimiter.char]

/-- The pieces of declarations, in their order. -/
def Dictionary.pieces (declarations names : Dictionary) : List Piece :=
  declarations.entries.map fun entry =>
    ⟨entry.1 ++ ':' :: Animation.renameValue names entry.1 entry.2, .semicolon⟩

variable (names : Dictionary)

/-- The pieces of a rule set. -/
def RuleSet.pieces (rule : RuleSet) : List Piece :=
  ⟨rule.selector, .openBrace⟩ :: (rule.declarations.pieces names ++ [⟨[], .closeBrace⟩])

mutual

/-- The pieces of a rule. -/
def Rule.pieces : Rule → List Piece
  | .ruleSet rule => rule.pieces names
  | .keyframes identifier steps =>
    ⟨keyframesKeyword ++ ' ' :: identifier, .openBrace⟩ ::
      (steps.flatMap (RuleSet.pieces names) ++ [⟨[], .closeBrace⟩])
  | .group type query rules =>
    ⟨type.keyword ++ ' ' :: (query ++ [' ']), .openBrace⟩ ::
      (Rule.bodyPieces rules ++ [⟨[], .closeBrace⟩])

/-- The pieces of rules, one rule after the other. -/
def Rule.bodyPieces : List Rule → List Piece
  | [] => []
  | rule :: rules => rule.pieces ++ Rule.bodyPieces rules

end

theorem Dictionary.declarationText_eq_written (declarations : Dictionary) :
    declarations.declarationText names = (declarations.pieces names).flatMap Piece.written := by
  simp [declarationText, pieces, List.flatMap_map, Piece.written, Delimiter.char]

theorem RuleSet.text_eq_written (rule : RuleSet) :
    rule.text names = (rule.pieces names).flatMap Piece.written := by
  simp [text, pieces, Dictionary.declarationText_eq_written, Piece.written, Delimiter.char]

mutual

theorem Rule.text_eq_written (rule : Rule) :
    rule.text names = (rule.pieces names).flatMap Piece.written := by
  cases rule with
  | ruleSet rule => exact rule.text_eq_written names
  | keyframes identifier steps =>
    have hsteps : steps.flatMap (RuleSet.text names) =
        (steps.flatMap (RuleSet.pieces names)).flatMap Piece.written := by
      simp only [List.flatMap_assoc, ← RuleSet.text_eq_written]
    simp [Rule.text, Rule.pieces, hsteps, Piece.written, Delimiter.char]
  | group type query rules =>
    have hrules := Rule.bodyText_eq_written rules
    simp [Rule.text, Rule.pieces, hrules, Piece.written, Delimiter.char]

theorem Rule.bodyText_eq_written (rules : List Rule) :
    Rule.bodyText names rules = (Rule.bodyPieces names rules).flatMap Piece.written := by
  cases rules with
  | nil => rfl
  | cons rule rules =>
    have hrule := Rule.text_eq_written rule
    have hrules := Rule.bodyText_eq_written rules
    simp [Rule.bodyText, Rule.bodyPieces, hrule, hrules]

end

theorem keyframesKeyword_plain : keyframesKeyword.Plain := by
  rw [keyframesKeyword_eq]
  decide

theorem GroupType.keyword_plain (type : GroupType) : type.keyword.Plain := by
  cases type
  · rw [GroupType.keyword_media]
    decide
  · rw [GroupType.keyword_supports]
    decide

namespace Chunk

/-- A piece at the beginning of a text is cut off first. -/
theorem cutFrom_written {piece : Piece} (h : piece.text.Plain) (offset : Nat) (rest : Text) :
    cutFrom [] offset (piece.written ++ rest) =
      ⟨piece.text, piece.delimiter, offset + piece.text.length⟩ ::
        cutFrom [] (offset + piece.text.length + 1) rest := by
  rw [Piece.written, List.append_assoc, cutFrom_plain h]
  simp [cutFrom]

/-- What follows some pieces is left over. -/
theorem restFrom_written {pieces : List Piece} (h : ∀ piece ∈ pieces, piece.text.Plain)
    {rest : Text} (hrest : rest.Plain) :
    restFrom [] (pieces.flatMap Piece.written ++ rest) = rest := by
  induction pieces with
  | nil => simpa [restFrom] using restFrom_plain hrest [] []
  | cons piece pieces ih =>
    obtain ⟨hpiece, hpieces⟩ := List.forall_mem_cons.1 h
    rw [List.flatMap_cons, List.append_assoc, Piece.written, List.append_assoc,
      restFrom_plain hpiece]
    simpa [restFrom] using ih hpieces

end Chunk

end ScopedStyles
