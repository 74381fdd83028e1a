import ScopedStyles.Proofs.Grammar.Texts
import ScopedStyles.Proofs.Rule.Characters

/-!
# Comments in printed rules

The texts of a printed rule are put together with marks between them, none of which is a slash or a
star. So a printed rule opens a comment only if one of its texts does, and these are cut out of what
is read of the source.

## Main definitions

* `RuleSet.Forall`, `Rule.Forall` — a property of all texts of a rule.

## Main statements

* `Rule.Forall.not_opensComment` — a rule none of whose texts opens a comment is printed without
  opening one.
* `source_of_printed_comment` — where a comment in a printed rule comes from.
-/

namespace ScopedStyles

variable {scope : Text}

/-! ## Texts with marks between them -/

namespace Text

theorem not_opensComment_append_cons {c : Char} (hslash : c ≠ '/') (hstar : c ≠ '*') {s t : Text}
    (hs : ¬ s.OpensComment) (ht : ¬ t.OpensComment) : ¬ OpensComment (s ++ c :: t) := by
  rw [opensComment_append_cons_iff hslash hstar]
  exact not_or.2 ⟨hs, ht⟩

theorem not_opensComment_intercalate {c : Char} (hslash : c ≠ '/') (hstar : c ≠ '*')
    {parts : List Text} (h : ∀ part ∈ parts, ¬ part.OpensComment) :
    ¬ OpensComment ([c].intercalate parts) := by
  induction parts with
  | nil => simp [OpensComment]
  | cons part parts ih =>
    obtain ⟨hpart, hparts⟩ := List.forall_mem_cons.1 h
    cases parts with
    | nil => simpa using hpart
    | cons next parts =>
      rw [List.intercalate_cons_cons, List.append_assoc, List.singleton_append]
      exact not_opensComment_append_cons hslash hstar hpart (ih hparts)

end Text

theorem Piece.not_opensComment_written {pieces : List Piece}
    (h : ∀ piece ∈ pieces, ¬ piece.text.OpensComment) :
    ¬ Text.OpensComment (pieces.flatMap Piece.written) := by
  induction pieces with
  | nil => decide
  | cons piece pieces ih =>
    obtain ⟨hpiece, hpieces⟩ := List.forall_mem_cons.1 h
    rw [List.flatMap_cons, Piece.written, List.append_assoc, List.singleton_append]
    have hmark : piece.delimiter.char ≠ '/' ∧ piece.delimiter.char ≠ '*' := by
      cases piece.delimiter <;> decide
    exact Text.not_opensComment_append_cons hmark.1 hmark.2 hpiece (ih hpieces)

theorem Selector.not_opensComment_attach {outer part : Text} (houter : ¬ outer.OpensComment)
    (hpart : ¬ part.OpensComment) : ¬ (attach outer part).OpensComment := by
  unfold attach
  split
  · next hcolon =>
    obtain ⟨rest, rfl⟩ := List.head?_eq_some_iff.1 hcolon
    have hrest : ¬ Text.OpensComment rest :=
      fun h => hpart (h.of_isInfix (List.suffix_cons ':' rest).isInfix)
    exact Text.not_opensComment_append_cons (by decide) (by decide) houter hrest
  · exact Text.not_opensComment_append_cons (by decide) (by decide) houter hpart

theorem not_opensComment_ofScope (hscope : ¬ scope.OpensComment) :
    ¬ (Selector.ofScope scope).OpensComment :=
  Text.not_opensComment_append_cons (s := []) (by decide) (by decide) (by decide) hscope

theorem not_opensComment_qualify (hscope : ¬ scope.OpensComment) {name : Text}
    (hname : ¬ name.OpensComment) : ¬ (qualify scope name).OpensComment :=
  Text.not_opensComment_append_cons (by decide) (by decide) hscope hname

section

variable {names : Dictionary}

namespace Animation

variable {value : Text}

theorem not_opensComment_rename (hnames : ∀ entry ∈ names.entries, ¬ Text.OpensComment entry.2)
    (h : ¬ value.OpensComment) : ¬ (names.rename value).OpensComment := by
  rcases names.rename_eq_or value with hname | ⟨entry, hentry, hname⟩
  · rwa [hname]
  · rw [hname]
    exact hnames entry hentry

theorem not_opensComment_renameEntry
    (hnames : ∀ entry ∈ names.entries, ¬ Text.OpensComment entry.2) (h : ¬ value.OpensComment) :
    ¬ (renameEntry names value).OpensComment := by
  unfold renameEntry
  split
  · exact h
  · next name rest hwords =>
    have hword : ∀ word ∈ name :: rest, ¬ word.OpensComment :=
      fun word hword hopens => h (hopens.of_isInfix (Text.isInfix_of_mem_words (hwords ▸ hword)))
    obtain ⟨hname, hrest⟩ := List.forall_mem_cons.1 hword
    apply Text.not_opensComment_intercalate (by decide) (by decide)
    exact List.forall_mem_cons.2 ⟨not_opensComment_rename hnames hname, hrest⟩

/-- Renaming the animations in a value opens no comment. -/
theorem not_opensComment_renameValue
    (hnames : ∀ entry ∈ names.entries, ¬ Text.OpensComment entry.2) (h : ¬ value.OpensComment)
    (property : Text) : ¬ (renameValue names property value).OpensComment := by
  unfold renameValue
  split
  · apply Text.not_opensComment_intercalate (by decide) (by decide)
    intro part hpart
    obtain ⟨entry, hentry, rfl⟩ := List.mem_map.1 hpart
    rw [List.splitOn_eq_splitOnP] at hentry
    exact not_opensComment_renameEntry hnames
      fun hopens => h (hopens.of_isInfix (Text.isInfix_of_mem_splitOnP hentry))
  split
  · exact not_opensComment_rename hnames h
  · exact h

end Animation

/-! ## Rules -/

/-- All texts of a rule set have a property. -/
structure RuleSet.Forall (Q : Text → Prop) (rule : RuleSet) : Prop where
  selector : Q rule.selector
  declarations : ∀ entry ∈ rule.declarations.entries, Q entry.1 ∧ Q entry.2

/-- All texts of a rule have a property. -/
inductive Rule.Forall (Q : Text → Prop) : Rule → Prop
  | ruleSet {rule : RuleSet} (h : rule.Forall Q) : Forall Q (.ruleSet rule)
  | keyframes {identifier : Text} {steps : List RuleSet} (hidentifier : Q identifier)
      (hsteps : ∀ step ∈ steps, step.Forall Q) : Forall Q (.keyframes identifier steps)
  | group {type : GroupType} {query : Text} {rules : List Rule} (hquery : Q query)
      (hrules : ∀ rule ∈ rules, Forall Q rule) : Forall Q (.group type query rules)

theorem RuleSet.Forall.not_opensComment_pieces
    (hnames : ∀ entry ∈ names.entries, ¬ Text.OpensComment entry.2) {rule : RuleSet}
    (h : rule.Forall fun t => ¬ t.OpensComment) :
    ∀ piece ∈ rule.pieces names, ¬ piece.text.OpensComment := by
  refine List.forall_mem_cons.2 ⟨h.selector, List.forall_mem_append.2 ⟨fun piece hpiece => ?_, ?_⟩⟩
  · obtain ⟨entry, hentry, rfl⟩ := List.mem_map.1 hpiece
    obtain ⟨hproperty, hvalue⟩ := h.declarations entry hentry
    exact Text.not_opensComment_append_cons (by decide) (by decide) hproperty
      (Animation.not_opensComment_renameValue hnames hvalue entry.1)
  · exact List.forall_mem_singleton.2 (by decide)

theorem not_opensComment_header (keyword : Text) (hkeyword : ¬ keyword.OpensComment) {t : Text}
    (ht : ¬ t.OpensComment) : ¬ Text.OpensComment (keyword ++ ' ' :: t) :=
  Text.not_opensComment_append_cons (by decide) (by decide) hkeyword ht

theorem Rule.Forall.not_opensComment_pieces
    (hnames : ∀ entry ∈ names.entries, ¬ Text.OpensComment entry.2) {rule : Rule}
    (h : rule.Forall fun t => ¬ t.OpensComment) :
    ∀ piece ∈ rule.pieces names, ¬ piece.text.OpensComment := by
  have hclose : ∀ piece ∈ [(⟨[], .closeBrace⟩ : Piece)], ¬ piece.text.OpensComment :=
    List.forall_mem_singleton.2 (by decide)
  induction h with
  | ruleSet h => exact h.not_opensComment_pieces hnames
  | keyframes hidentifier hsteps =>
    have hheader := not_opensComment_header keyframesKeyword (by decide) hidentifier
    refine List.forall_mem_cons.2 ⟨hheader, List.forall_mem_append.2 ⟨?_, hclose⟩⟩
    intro piece hpiece
    obtain ⟨step, hstep, hpiece⟩ := List.mem_flatMap.1 hpiece
    exact (hsteps step hstep).not_opensComment_pieces hnames piece hpiece
  | @group type query _ hquery _ ih =>
    have hspaced : ¬ Text.OpensComment (query ++ [' ']) :=
      Text.not_opensComment_append_cons (by decide) (by decide) hquery (by decide)
    have hheader := not_opensComment_header type.keyword (by cases type <;> decide) hspaced
    exact List.forall_mem_cons.2
      ⟨hheader, List.forall_mem_append.2 ⟨Rule.forall_mem_bodyPieces ih, hclose⟩⟩

/-- A rule none of whose texts opens a comment is printed without opening one. -/
theorem Rule.Forall.not_opensComment
    (hnames : ∀ entry ∈ names.entries, ¬ Text.OpensComment entry.2) {rule : Rule}
    (h : rule.Forall fun t => ¬ t.OpensComment) : ¬ (rule.text names).OpensComment := by
  rw [Rule.text_eq_written]
  exact Piece.not_opensComment_written (h.not_opensComment_pieces hnames)

end

/-! ## Contents -/

namespace Content.Forall

variable {Q : Text → Prop} {c : Content}

theorem declarations (h : c.Forall Q) : ∀ entry ∈ c.declarations, Q entry.1 ∧ Q entry.2 := by
  induction h with
  | nil => simp [Content.declarations]
  | declaration hproperty hvalue _ ih => exact List.forall_mem_cons.2 ⟨⟨hproperty, hvalue⟩, ih⟩
  | @block head _ _ _ _ _ ihinner ihrest =>
    cases head with
    | keyframes name => exact List.forall_mem_append.2 ⟨ihinner, ihrest⟩
    | selector _ | group _ _ => exact ihrest

theorem kept (h : c.Forall Q) {selector : Text} (hselector : Q selector) :
    ∀ rule ∈ RuleSet.kept selector c.declarations, rule.Forall Q := by
  intro rule hrule
  rw [RuleSet.kept] at hrule
  split at hrule
  · cases hrule
  · obtain rfl := List.mem_singleton.1 hrule
    refine ⟨hselector, fun entry hentry => ?_⟩
    rcases Dictionary.mem_entries_update hentry with hentry | hentry
    · cases hentry
    · exact h.declarations entry hentry

theorem steps (h : c.Forall Q) : ∀ step ∈ c.steps, step.Forall Q := by
  induction h with
  | nil => simp [Content.steps]
  | declaration _ _ _ ih => exact ih
  | @block head _ _ hhead hinner _ _ ihrest =>
    cases head with
    | selector selector => exact List.forall_mem_append.2 ⟨hinner.kept hhead, ihrest⟩
    | keyframes _ | group _ _ => exact ihrest

theorem ruleSets (h : c.Forall fun t => ¬ t.OpensComment) {outer : Text}
    (houter : ¬ outer.OpensComment) :
    ∀ rule ∈ c.ruleSets outer, rule.Forall fun t => ¬ t.OpensComment := by
  induction h generalizing outer with
  | nil => simp [Content.ruleSets]
  | declaration _ _ _ ih => exact ih houter
  | @block head _ _ hhead hinner _ ihinner ihrest =>
    cases head with
    | selector part =>
      have hselector : ¬ (Selector.attach outer part).OpensComment :=
        Selector.not_opensComment_attach houter hhead
      exact List.forall_mem_append.2
        ⟨ihinner hselector, List.forall_mem_append.2 ⟨hinner.kept hselector, ihrest houter⟩⟩
    | keyframes _ | group _ _ => exact ihrest houter

theorem own (h : c.Forall fun t => ¬ t.OpensComment) (hscope : ¬ scope.OpensComment) :
    ∀ rule ∈ c.own scope, rule.Forall fun t => ¬ t.OpensComment :=
  List.forall_mem_map.2 fun rule hrule =>
    .ruleSet (h.kept (not_opensComment_ofScope hscope) rule hrule)

theorem rules (h : c.Forall fun t => ¬ t.OpensComment) (hscope : ¬ scope.OpensComment) :
    ∀ rule ∈ c.rules scope, rule.Forall fun t => ¬ t.OpensComment := by
  induction h with
  | nil => simp [Content.rules]
  | declaration _ _ _ ih => exact ih
  | @block head inner _ hhead hinner _ ihinner ihrest =>
    cases head with
    | selector part =>
      have hblock : (Content.block (.selector part) inner .nil).Forall fun t => ¬ t.OpensComment :=
        .block hhead hinner .nil
      refine List.forall_mem_append.2 ⟨List.forall_mem_map.2 fun rule hrule => ?_, ihrest⟩
      exact .ruleSet (hblock.ruleSets (not_opensComment_ofScope hscope) rule hrule)
    | keyframes name =>
      have hidentifier : ¬ (qualify scope name).OpensComment :=
        not_opensComment_qualify hscope hhead
      exact List.forall_mem_cons.2 ⟨.keyframes hidentifier hinner.steps, ihrest⟩
    | group type query =>
      have hrules := List.forall_mem_append.2 ⟨hinner.own hscope, ihinner⟩
      exact List.forall_mem_cons.2 ⟨.group hhead hrules, ihrest⟩

theorem names (h : c.Forall Q) : ∀ name ∈ c.names, Q name := by
  induction h with
  | nil => simp [Content.names]
  | declaration _ _ _ ih => exact ih
  | @block head _ _ hhead _ _ ihinner ihrest =>
    cases head with
    | selector _ => exact ihrest
    | keyframes _ => exact List.forall_mem_cons.2 ⟨hhead, ihrest⟩
    | group _ _ => exact List.forall_mem_append.2 ⟨ihinner, ihrest⟩

/-- A content none of whose texts opens a comment is printed without opening one. -/
theorem not_opensComment (h : c.Forall fun t => ¬ t.OpensComment) (hscope : ¬ scope.OpensComment) :
    ∀ text ∈ (c.tree scope).texts, ¬ text.OpensComment := by
  have hnames : ∀ entry ∈ (c.tree scope).keyframes.entries, ¬ Text.OpensComment entry.2 := by
    intro entry hentry
    rcases Dictionary.mem_entries_update hentry with hentry | hentry
    · cases hentry
    · obtain ⟨name, hname, rfl⟩ := List.mem_map.1 hentry
      exact not_opensComment_qualify hscope (h.names name hname)
  have hrules := List.forall_mem_append.2 ⟨h.rules hscope, h.own hscope⟩
  exact List.forall_mem_map.2 fun rule hrule => (hrules rule hrule).not_opensComment hnames

end Content.Forall

/-! ## Sources -/

/-- As long as the scope holds no mark that opens a comment, a printed rule holds one only if there
is one left when the comments of the source have been left out. That is so exactly if there is one in
what is read of the source. -/
theorem source_of_printed_comment {source : Text} {tree : RuleTree}
    (hscope : ¬ scope.OpensComment) (h : parse scope source = .ok tree) :
    ((∃ text ∈ tree.texts, text.OpensComment) → source.withoutComments.OpensComment) ∧
    (source.withoutComments.OpensComment ↔ ∃ text ∈ Source.texts source, text.OpensComment) := by
  refine ⟨fun ⟨text, htext, hopens⟩ => ?_, Source.opensComment_texts_iff.symm⟩
  obtain ⟨c, hc⟩ := exists_says_of_parse h
  obtain rfl := Except.ok.inj (h.symm.trans hc.parse_eq)
  by_contra hsource
  have htexts : ∀ text ∈ Source.texts source, ¬ text.OpensComment :=
    fun text htext hopens => hsource (Source.opensComment_texts_iff.1 ⟨text, htext, hopens⟩)
  have hforall := hc.forall_texts (fun _ _ ht hs hopens => ht (hopens.of_isInfix hs)) htexts
  exact hforall.not_opensComment hscope text htext hopens

theorem source_of_printed_comment_spaced :
    ¬ Text.OpensComment ['k'] ∧
    ¬ (Text.withoutComments "p/**/{x:/ /**/*y}".toList).OpensComment ∧
    ∃ tree : RuleTree, parse ['k'] "p/**/{x:/ /**/*y}".toList = .ok tree ∧
      tree.texts = [".k p{x:/ *y;}".toList] ∧ ∀ text ∈ tree.texts, ¬ text.OpensComment := by
  have hparse : parse ['k'] "p/**/{x:/ /**/*y}".toList =
      .ok ⟨[.ruleSet ⟨".k p".toList, ⟨[(['x'], "/ *y".toList)]⟩⟩], ∅⟩ := by decide +kernel
  have hsource : ¬ (Text.withoutComments "p/**/{x:/ /**/*y}".toList).OpensComment := by
    decide +kernel
  have hprinted := (source_of_printed_comment (by decide) hparse).1
  exact ⟨by decide, hsource, _, hparse, by decide +kernel,
    fun text htext hopens => hsource (hprinted ⟨text, htext, hopens⟩)⟩

/-- A comment between a slash and a star leaves a mark that opens a comment. -/
theorem comment_comes_about :
    parse ['k'] "a:b//**/*c".toList =
      .ok ⟨[.ruleSet ⟨".k".toList, ⟨[(['a'], "b/*c".toList)]⟩⟩], ∅⟩ ∧
    RuleTree.texts ⟨[.ruleSet ⟨".k".toList, ⟨[(['a'], "b/*c".toList)]⟩⟩], ∅⟩ =
      [".k{a:b/*c;}".toList] ∧
    Text.OpensComment ".k{a:b/*c;}".toList := by
  decide +kernel

end ScopedStyles
