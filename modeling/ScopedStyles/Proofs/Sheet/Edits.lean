import ScopedStyles.Sheet

/-!
# Edits of a sheet

A sheet is edited one step after the other: a rule is put in or taken out, or the sheet is cleared.
A step is refused or does exactly what is asked for, and only flat rules are ever in the sheet.

## Main definitions

* `Edit` — what can be asked of a sheet.
* `Sheet.edit` — what comes of an edit, and the sheet after it.
* `Sheet.Edits` — the same, said of the rules before and after the edit.
* `Edited`, `Sheet.edited` — the edits of a run, each with the sheet on which it is made.

## Main statements

* `Sheet.edits_iff` — the two descriptions of an edit agree.
* `Sheet.Edits.accepts` — an edit of a sheet of flat rules leaves a sheet of flat rules.
* `edited_from_empty` — what this comes to in a run from an empty sheet.
-/

namespace ScopedStyles

/-- What can be asked of a sheet. -/
inductive Edit
  | insert (rule : Text) (index : Option Int)
  | delete (index : Int)
  | clear
  deriving DecidableEq, Repr

namespace Sheet

/-- What comes of an edit, and the sheet after it. A rule that goes in is answered with its place. -/
def edit (s : Sheet) : Edit → Except SheetError (Option Nat) × Sheet
  | .insert rule index =>
    match s.insert rule index with
    | .ok (s', i) => (.ok (some i), s')
    | .error e => (.error e, s)
  | .delete index =>
    match s.delete index with
    | .ok s' => (.ok none, s')
    | .error e => (.error e, s)
  | .clear => (.ok none, s.clear)

/-- What an edit does to the rules of a sheet. -/
inductive Edits (s : Sheet) : Edit → Except SheetError (Option Nat) → Sheet → Prop
  /-- A text that is no flat rule is refused, wherever it is to go. -/
  | rejected {rule : Text} {index : Option Int} {rejection : Rejection}
      (h : FlatRule.read rule = .error rejection) :
      Edits s (.insert rule index) (.error (.rejected rule rejection)) s
  /-- A flat rule goes nowhere but between the rules, before the first one or after the last. -/
  | noGap {rule : Text} {index : Int} (haccepts : FlatRule.accepts rule)
      (h : index < 0 ∨ s.rules.length < index) :
      Edits s (.insert rule (some index)) (.error (.outOfRange index)) s
  /-- Without an index, a flat rule goes after the last one. -/
  | inserted {rule : Text} {index : Option Int} {before after : List Text}
      (haccepts : FlatRule.accepts rule) (hrules : s.rules = before ++ after)
      (hindex : index.getD s.rules.length = before.length) :
      Edits s (.insert rule index) (.ok (some before.length))
        { s with rules := before ++ rule :: after }
  | noRule {index : Int} (h : index < 0 ∨ s.rules.length ≤ index) :
      Edits s (.delete index) (.error (.outOfRange index)) s
  | deleted {rule : Text} {before after : List Text} (hrules : s.rules = before ++ rule :: after) :
      Edits s (.delete before.length) (.ok none) { s with rules := before ++ after }
  | cleared : Edits s .clear (.ok none) { s with rules := [] }

variable {s : Sheet}

/-! ## One edit -/

theorem insert_of_accepts {rule : Text} (h : FlatRule.accepts rule) (index : Option Int) :
    s.insert rule index =
      if 0 ≤ index.getD s.rules.length ∧ index.getD s.rules.length ≤ s.rules.length then
        .ok ({ s with rules := s.rules.insertIdx (index.getD s.rules.length).toNat rule },
          (index.getD s.rules.length).toNat)
      else .error (.outOfRange (index.getD s.rules.length)) := by
  obtain ⟨flat, hread⟩ := FlatRule.accepts_iff_exists.1 h
  rw [insert, hread]

theorem insertIdx_length_append (before after : List Text) (rule : Text) :
    (before ++ after).insertIdx before.length rule = before ++ rule :: after := by
  induction before with
  | nil => rfl
  | cons first before ih => simp [ih]

theorem eraseIdx_length_append (before after : List Text) (rule : Text) :
    (before ++ rule :: after).eraseIdx before.length = before ++ after := by
  rw [List.eraseIdx_append_of_length_le (Nat.le_refl _)]
  simp

/-- What an edit does is what comes of it. -/
theorem Edits.edit_eq {e : Edit} {result : Except SheetError (Option Nat)} {s' : Sheet}
    (h : s.Edits e result s') : s.edit e = (result, s') := by
  cases h with
  | rejected h => rw [edit, insert, h]
  | noGap haccepts h =>
    rw [edit, insert_of_accepts haccepts, Option.getD_some, if_neg (by omega)]
  | inserted haccepts hrules hindex =>
    have hlength := congrArg List.length hrules
    rw [List.length_append] at hlength
    rw [edit, insert_of_accepts haccepts, hindex, if_pos (by omega), Int.toNat_natCast, hrules,
      insertIdx_length_append]
  | noRule h => rw [edit, delete, if_neg (by omega)]
  | deleted hrules =>
    have hlength := congrArg List.length hrules
    rw [List.length_append, List.length_cons] at hlength
    rw [edit, delete, if_pos (by omega), Int.toNat_natCast, hrules, eraseIdx_length_append]
  | cleared => rfl

/-- Every edit does something. -/
theorem exists_edits (s : Sheet) (e : Edit) : ∃ result s', s.Edits e result s' := by
  cases e with
  | insert rule index =>
    cases hread : FlatRule.read rule with
    | error rejection => exact ⟨_, _, .rejected hread⟩
    | ok flat =>
      have haccepts := FlatRule.accepts_iff_exists.2 ⟨flat, hread⟩
      by_cases hgap : 0 ≤ index.getD s.rules.length ∧ index.getD s.rules.length ≤ s.rules.length
      · obtain ⟨n, hn⟩ := Int.eq_ofNat_of_zero_le hgap.1
        have hrules := (List.take_append_drop n s.rules).symm
        refine ⟨_, _, .inserted haccepts hrules ?_⟩
        rw [List.length_take_of_le (by omega), hn]
      · cases index with
        | none =>
          rw [Option.getD_none] at hgap
          omega
        | some i =>
          rw [Option.getD_some] at hgap
          exact ⟨_, _, .noGap haccepts (by omega)⟩
  | delete index =>
    by_cases hrange : index < 0 ∨ s.rules.length ≤ index
    · exact ⟨_, _, .noRule hrange⟩
    · obtain ⟨n, rfl⟩ := Int.eq_ofNat_of_zero_le (by omega : 0 ≤ index)
      have hn : n < s.rules.length := by omega
      have hrules : s.rules = s.rules.take n ++ s.rules[n] :: s.rules.drop (n + 1) := by
        rw [List.getElem_cons_drop, List.take_append_drop]
      have hdeleted := Edits.deleted hrules
      rw [List.length_take_of_le (Nat.le_of_lt hn)] at hdeleted
      exact ⟨_, _, hdeleted⟩
  | clear => exact ⟨_, _, .cleared⟩

/-- The two descriptions of an edit agree. In particular an edit does one thing only. -/
theorem edits_iff {e : Edit} {result : Except SheetError (Option Nat)} {s' : Sheet} :
    s.Edits e result s' ↔ s.edit e = (result, s') := by
  refine ⟨Edits.edit_eq, fun h => ?_⟩
  obtain ⟨result', s'', hedits⟩ := s.exists_edits e
  obtain ⟨rfl, rfl⟩ := Prod.mk.inj (h.symm.trans hedits.edit_eq)
  exact hedits

namespace Edits

variable {e : Edit} {result : Except SheetError (Option Nat)} {s' : Sheet}

/-- An edit of a sheet of flat rules leaves a sheet of flat rules. -/
theorem accepts (h : s.Edits e result s') (hs : ∀ rule ∈ s.rules, FlatRule.accepts rule) :
    ∀ rule ∈ s'.rules, FlatRule.accepts rule := by
  cases h with
  | rejected _ | noGap _ _ | noRule _ => exact hs
  | inserted haccepts hrules _ =>
    rw [hrules, List.forall_mem_append] at hs
    exact List.forall_mem_append.2 ⟨hs.1, List.forall_mem_cons.2 ⟨haccepts, hs.2⟩⟩
  | deleted hrules =>
    rw [hrules, List.forall_mem_append, List.forall_mem_cons] at hs
    exact List.forall_mem_append.2 ⟨hs.1, hs.2.2⟩
  | cleared => exact List.forall_mem_nil _

theorem eq_of_error {error : SheetError} (h : s.Edits e (.error error) s') : s' = s := by
  cases h <;> rfl

end Edits

end Sheet

/-! ## All edits -/

/-- An edit of a run, with the sheet on which it is made. -/
structure Edited where
  before : Sheet
  edit : Edit
  deriving DecidableEq, Repr

namespace Edited

/-- What comes of the edit. -/
def result (step : Edited) : Except SheetError (Option Nat) :=
  (step.before.edit step.edit).1

/-- The sheet after the edit. -/
def after (step : Edited) : Sheet :=
  (step.before.edit step.edit).2

end Edited

/-- The edits of a run, each with the sheet that the edits before it have left. -/
def Sheet.edited (s : Sheet) : List Edit → List Edited
  | [] => []
  | e :: edits => ⟨s, e⟩ :: (Edited.mk s e).after.edited edits

theorem Edited.edits (step : Edited) : step.before.Edits step.edit step.result step.after :=
  Sheet.edits_iff.2 rfl

/-- In a run from a sheet of flat rules, there is never anything else in the sheet. -/
theorem Sheet.accepts_of_mem_edited {s : Sheet} (hs : ∀ rule ∈ s.rules, FlatRule.accepts rule)
    {edits : List Edit} {step : Edited} (hstep : step ∈ s.edited edits) :
    ∀ rule ∈ step.after.rules, FlatRule.accepts rule := by
  induction edits generalizing s with
  | nil => cases hstep
  | cons e edits ih =>
    have hafter := (Edited.mk s e).edits.accepts hs
    rcases List.mem_cons.1 hstep with rfl | hstep
    · exact hafter
    · exact ih hafter hstep

/-- In a run of edits of a new sheet, all rules in the sheet are flat rules after every edit. An
edit that is refused leaves the sheet as it is. Whatever is asked for, what comes of it is what
`Sheet.Edits` says and nothing else. -/
theorem edited_from_empty (title : Option Text) (edits : List Edit) :
    ∀ step ∈ Sheet.edited { title } edits,
      (∀ rule ∈ step.after.rules, FlatRule.accepts rule) ∧
      (∀ error, step.result = .error error → step.after = step.before) ∧
      ∀ result after, step.before.Edits step.edit result after ↔
        step.result = result ∧ step.after = after := by
  intro step hstep
  refine ⟨Sheet.accepts_of_mem_edited (List.forall_mem_nil _) hstep, fun error h => ?_,
    fun result after => ?_⟩
  · exact (h ▸ step.edits).eq_of_error
  · rw [Sheet.edits_iff, Prod.ext_iff]
    rfl

theorem edited_from_empty_refused :
    (Edited.mk ⟨none, [".a{b:c;}".toList]⟩ (.insert ".d{e:f;}".toList (some (-1)))).after =
      ⟨none, [".a{b:c;}".toList]⟩ := by
  obtain ⟨-, hrefused, hedits⟩ := edited_from_empty none
    [.insert ".a{b:c;}".toList none, .insert ".d{e:f;}".toList (some (-1))]
    ⟨⟨none, [".a{b:c;}".toList]⟩, .insert ".d{e:f;}".toList (some (-1))⟩ (by decide +kernel)
  have hresult := (hedits _ _).1 (.noGap (by decide +kernel) (.inl (by decide)))
  exact hrefused _ hresult.1

end ScopedStyles
