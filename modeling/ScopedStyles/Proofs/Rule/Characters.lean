import ScopedStyles.Proofs.Grammar.WellFormed
import ScopedStyles.Proofs.Rule.Renaming

/-!
# The characters of printed rules

The texts of a printed rule are put together from the scope, keywords, a few marks and what stands
in the chunks of the source. So a property of characters that the scope has, and that every character
of a chunk has, is one of all these texts.

## Main definitions

* `IsOrdinary`, `Text.Ordinary` — what a chunk of a source can hold.

## Main statements

* `RuleTree.WellFormed.forall_mem_pieces` — what the characters of the scope and all ordinary ones
  have in common is found in every text of a printed rule.
-/

namespace ScopedStyles

/-- A character that is no delimiter, and no scanner blank except a space. -/
def IsOrdinary (c : Char) : Prop :=
  Delimiter.ofChar? c = none ∧ (c.isWhitespace = true → c = ' ')

instance : DecidablePred IsOrdinary :=
  fun _ => inferInstanceAs (Decidable (_ ∧ _))

/-- A text that a chunk of a source can hold. -/
def Text.Ordinary (t : Text) : Prop :=
  ∀ c ∈ t, IsOrdinary c

instance (t : Text) : Decidable t.Ordinary :=
  List.decidableBAll _ t

theorem Text.IsPart.ordinary {t : Text} (h : t.IsPart) : t.Ordinary :=
  fun c hc => ⟨h.collapsed.plain c hc, h.collapsed.blanks c hc⟩

theorem keyframesKeyword_ordinary : keyframesKeyword.Ordinary := by
  rw [keyframesKeyword_eq]
  decide

theorem GroupType.keyword_ordinary (type : GroupType) : type.keyword.Ordinary := by
  cases type
  · rw [GroupType.keyword_media]
    decide
  · rw [GroupType.keyword_supports]
    decide

section

variable {P : Char → Prop} {scope : Text} {headers : List Text} {names : Dictionary}

theorem forall_mem_qualify (hdash : P '-') (hscope : ∀ c ∈ scope, P c) {name : Text}
    (hname : ∀ c ∈ name, P c) : ∀ c ∈ qualify scope name, P c :=
  List.forall_mem_append.2 ⟨hscope, List.forall_mem_cons.2 ⟨hdash, hname⟩⟩

theorem Selector.forall_mem_foldl_attach (hspace : P ' ') {outer : Text}
    (houter : ∀ c ∈ outer, P c) {parts : List Text} (h : ∀ part ∈ parts, ∀ c ∈ part, P c) :
    ∀ c ∈ parts.foldl attach outer, P c := by
  induction parts generalizing outer with
  | nil => exact houter
  | cons part parts ih =>
    obtain ⟨hpart, hparts⟩ := List.forall_mem_cons.1 h
    refine ih ?_ hparts
    unfold attach
    split
    · exact List.forall_mem_append.2 ⟨houter, hpart⟩
    · exact List.forall_mem_append.2 ⟨houter, List.forall_mem_cons.2 ⟨hspace, hpart⟩⟩

theorem RuleSet.forall_mem_pieces (hordinary : ∀ c, IsOrdinary c → P c)
    (hnames : ∀ entry ∈ names.entries, ∀ c ∈ entry.2, P c) {rule : RuleSet}
    (hselector : ∀ c ∈ rule.selector, P c) (h : rule.declarations.Declared) :
    ∀ piece ∈ rule.pieces names, ∀ c ∈ piece.text, P c := by
  refine List.forall_mem_cons.2 ⟨hselector, List.forall_mem_append.2 ⟨fun piece hpiece => ?_, ?_⟩⟩
  · obtain ⟨entry, hentry, rfl⟩ := List.mem_map.1 hpiece
    have hdeclaration := h.each entry hentry
    have hproperty : ∀ c ∈ entry.1, P c :=
      fun c hc => hordinary c (hdeclaration.property_part.ordinary c hc)
    have hvalue := Animation.forall_mem_renameValue (hordinary ' ' (by decide))
      (hordinary ',' (by decide)) hnames
      (fun c hc => hordinary c (hdeclaration.value_part.ordinary c hc)) entry.1
    have hcolon : P ':' := hordinary ':' (by decide)
    exact List.forall_mem_append.2 ⟨hproperty, List.forall_mem_cons.2 ⟨hcolon, hvalue⟩⟩
  · exact List.forall_mem_singleton.2 (List.forall_mem_nil _)

theorem Rule.forall_mem_bodyPieces {R : Piece → Prop} {rules : List Rule}
    (h : ∀ rule ∈ rules, ∀ piece ∈ rule.pieces names, R piece) :
    ∀ piece ∈ Rule.bodyPieces names rules, R piece := by
  induction rules with
  | nil => simp [Rule.bodyPieces]
  | cons rule rules ih =>
    obtain ⟨hrule, hrules⟩ := List.forall_mem_cons.1 h
    exact List.forall_mem_append.2 ⟨hrule, ih hrules⟩

/-- What the characters of the scope, of the qualified names and all ordinary ones have in common
is found in every text of a well-formed rule. -/
theorem Rule.WellFormed.forall_mem_pieces (hordinary : ∀ c, IsOrdinary c → P c)
    (hscope : ∀ c ∈ scope, P c) (hnames : ∀ entry ∈ names.entries, ∀ c ∈ entry.2, P c)
    {rule : Rule} (h : rule.WellFormed scope headers) :
    ∀ piece ∈ rule.pieces names, ∀ c ∈ piece.text, P c := by
  have hspace : P ' ' := hordinary ' ' (by decide)
  have hpart : ∀ {t : Text}, t.IsPart → ∀ c ∈ t, P c :=
    fun ht c hc => hordinary c (ht.ordinary c hc)
  have hclose : ∀ piece ∈ [(⟨[], .closeBrace⟩ : Piece)], ∀ c ∈ piece.text, P c :=
    List.forall_mem_singleton.2 (List.forall_mem_nil _)
  induction h with
  | @ruleSet rule parts hselector hparts hdeclared =>
    have hofScope : ∀ c ∈ Selector.ofScope scope, P c :=
      List.forall_mem_cons.2 ⟨hordinary '.' (by decide), hscope⟩
    refine RuleSet.forall_mem_pieces hordinary hnames ?_ hdeclared
    rw [hselector]
    exact Selector.forall_mem_foldl_attach hspace hofScope
      fun part hmem => hpart (hparts part hmem).part
  | @keyframes name steps hname hselectors hdeclared =>
    have hkeyword : ∀ c ∈ keyframesKeyword, P c :=
      fun c hc => hordinary c (keyframesKeyword_ordinary c hc)
    have hidentifier : ∀ c ∈ qualify scope name, P c :=
      forall_mem_qualify (hordinary '-' (by decide)) hscope (hpart hname)
    have hheader := List.forall_mem_append.2
      ⟨hkeyword, List.forall_mem_cons.2 ⟨hspace, hidentifier⟩⟩
    rw [Rule.pieces]
    refine List.forall_mem_cons.2 ⟨hheader, List.forall_mem_append.2 ⟨?_, hclose⟩⟩
    intro piece hpiece
    obtain ⟨step, hstep, hpiece⟩ := List.mem_flatMap.1 hpiece
    exact RuleSet.forall_mem_pieces hordinary hnames (hpart (hselectors step hstep).part)
      (hdeclared step hstep) piece hpiece
  | @group type query rules hquery _ ih =>
    have hkeyword : ∀ c ∈ type.keyword, P c :=
      fun c hc => hordinary c (type.keyword_ordinary c hc)
    have hrest : ∀ c ∈ query ++ [' '], P c :=
      List.forall_mem_append.2 ⟨hpart hquery, List.forall_mem_singleton.2 hspace⟩
    have hheader := List.forall_mem_append.2 ⟨hkeyword, List.forall_mem_cons.2 ⟨hspace, hrest⟩⟩
    have hbody := Rule.forall_mem_bodyPieces ih
    rw [Rule.pieces]
    exact List.forall_mem_cons.2 ⟨hheader, List.forall_mem_append.2 ⟨hbody, hclose⟩⟩

namespace RuleTree.WellFormed

variable {tree : RuleTree}

theorem forall_mem_names (h : tree.WellFormed scope headers)
    (hordinary : ∀ c, IsOrdinary c → P c) (hscope : ∀ c ∈ scope, P c) :
    ∀ entry ∈ tree.keyframes.entries, ∀ c ∈ entry.2, P c := by
  intro entry hentry
  obtain ⟨hname, hqualified⟩ := h.keyframes entry hentry
  rw [hqualified]
  apply forall_mem_qualify (hordinary '-' (by decide)) hscope
  exact fun c hc => hordinary c (hname.ordinary c hc)

/-- What the characters of the scope and all ordinary ones have in common is found in every text of
a printed rule. -/
theorem forall_mem_pieces (h : tree.WellFormed scope headers)
    (hordinary : ∀ c, IsOrdinary c → P c) (hscope : ∀ c ∈ scope, P c) :
    ∀ rule ∈ tree.rules, ∀ piece ∈ rule.pieces tree.keyframes, ∀ c ∈ piece.text, P c :=
  fun rule hrule =>
    (h.rules rule hrule).forall_mem_pieces hordinary hscope (h.forall_mem_names hordinary hscope)

end RuleTree.WellFormed

end

end ScopedStyles
