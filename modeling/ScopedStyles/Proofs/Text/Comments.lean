import Mathlib.Data.List.Infix
import ScopedStyles.Text.Basic

/-!
# Texts without their comments

A comment starts with a slash and a star and goes on to the first star with a slash behind it, or to
the end of the text if there is none. Leaving the comments of a text out may put a slash in front of
a star, and then a mark that opens a comment is left.

## Main definitions

* `Text.OpensComment` — whether a text holds the mark that opens a comment.
* `Text.withoutComments` — a text without its comments.

## Main statements

* `Text.opensComment_append_iff` — the mark stands in one of two texts, or between them.
-/

namespace ScopedStyles.Text

/-- A text holds the mark that opens a comment. -/
def OpensComment (t : Text) : Prop :=
  ['/', '*'] <:+: t

instance (t : Text) : Decidable t.OpensComment :=
  inferInstanceAs (Decidable (_ <:+: _))

/-- What follows the comment in which a text starts. -/
def afterComment : Text → Text
  | [] => []
  | '*' :: '/' :: rest => rest
  | _ :: rest => afterComment rest

theorem length_afterComment_le (t : Text) : (afterComment t).length ≤ t.length := by
  fun_induction afterComment t with
  | case1 => exact le_rfl
  | case2 rest => simp only [List.length_cons]; omega
  | case3 c rest _ ih => exact ih.trans (Nat.le_succ _)

/-- A text without its comments. -/
def withoutComments : Text → Text
  | [] => []
  | '/' :: '*' :: rest =>
    have := length_afterComment_le rest
    withoutComments (afterComment rest)
  | c :: rest => c :: withoutComments rest
termination_by t => t.length

theorem opensComment_cons_iff {c : Char} {t : Text} :
    OpensComment (c :: t) ↔ c = '/' ∧ t.head? = some '*' ∨ OpensComment t := by
  rw [OpensComment, List.infix_cons_iff]
  cases t <;> simp [OpensComment, List.cons_prefix_cons, eq_comm (a := '/'), eq_comm (a := '*')]

theorem opensComment_append_iff {s t : Text} :
    OpensComment (s ++ t) ↔
      OpensComment s ∨ OpensComment t ∨ s.getLast? = some '/' ∧ t.head? = some '*' := by
  induction s with
  | nil => simp [OpensComment]
  | cons c s ih =>
    rw [List.cons_append, opensComment_cons_iff, opensComment_cons_iff, ih]
    cases s with
    | nil => simp [OpensComment, or_comm]
    | cons d s =>
      rw [List.getLast?_cons_cons]
      simp [or_assoc]

/-- No mark holds a character that is neither a slash nor a star. -/
theorem opensComment_append_cons_iff {c : Char} (hslash : c ≠ '/') (hstar : c ≠ '*')
    {s t : Text} : OpensComment (s ++ c :: t) ↔ OpensComment s ∨ OpensComment t := by
  rw [opensComment_append_iff, opensComment_cons_iff]
  simp [hslash, hstar]

theorem OpensComment.of_isInfix {s t : Text} (h : s.OpensComment) (hs : s <:+: t) :
    t.OpensComment :=
  h.trans hs

end ScopedStyles.Text
