import ScopedStyles.Text.Basic

/-!
# Similar texts

Two texts are similar if most of one of them can be found in the other one in the same order. The
longest run of characters that both have is taken first; what stands before it in both texts is
compared in the same way, and so is what stands behind it. All the runs together have to make up
three fifths of both texts.

## Main definitions

* `Text.longestRun` — the longest run of characters that two texts share.
* `Text.shared` — how many characters two texts share.
* `Text.isSimilar` — whether two texts are similar.
-/

namespace ScopedStyles.Text

/-! ## Runs -/

/-- How many characters two texts have in common at their starts. -/
def sharedStart : Text → Text → Nat
  | c :: t, d :: u => if c = d then sharedStart t u + 1 else 0
  | _, _ => 0

/-- A run of characters in two texts: where it starts in the first and in the second one, and how
long it is. -/
structure SharedRun where
  first : Nat := 0
  second : Nat := 0
  length : Nat := 0
  deriving DecidableEq, Repr

/-- The longest run that starts the first text, wherever it stands in the second one. Of several
that are equally long it is the first. -/
def longestStart (t : Text) : Text → SharedRun
  | [] => {}
  | d :: u =>
    let here := sharedStart t (d :: u)
    let later := longestStart t u
    if later.length ≤ here then { length := here } else { later with second := later.second + 1 }

/-- The longest run that two texts share. Of several that are equally long it is the one that starts
first in the first text, and then the one that starts first in the second text. -/
def longestRun : Text → Text → SharedRun
  | [], _ => {}
  | c :: t, u =>
    let here := longestStart (c :: t) u
    let later := longestRun t u
    if later.length ≤ here.length then here else { later with first := later.first + 1 }

theorem sharedStart_le (t u : Text) : sharedStart t u ≤ t.length ∧ sharedStart t u ≤ u.length := by
  fun_induction sharedStart t u <;> simp_all

theorem first_longestStart (t u : Text) : (longestStart t u).first = 0 := by
  fun_induction longestStart t u with
  | case1 => rfl
  | case2 => rfl
  | case3 d u here later h ih => exact ih

/-- A run that starts the first text lies in both texts. -/
theorem longestStart_le (t u : Text) :
    (longestStart t u).length ≤ t.length ∧
      (longestStart t u).second + (longestStart t u).length ≤ u.length := by
  fun_induction longestStart t u with
  | case1 => simp
  | case2 d u here later _ _ =>
    have := sharedStart_le t (d :: u)
    simp_all [here]
  | case3 d u here later _ ih => grind

/-- A run lies in both texts. -/
theorem longestRun_le (t u : Text) :
    (longestRun t u).first + (longestRun t u).length ≤ t.length ∧
      (longestRun t u).second + (longestRun t u).length ≤ u.length := by
  fun_induction longestRun t u with
  | case1 => simp
  | case2 c t u here later _ _ =>
    have := longestStart_le (c :: t) u
    have := first_longestStart (c :: t) u
    grind
  | case3 c t u here later _ ih => grind

/-! ## Shared characters -/

/-- How many characters two texts share. -/
def shared (t u : Text) : Nat :=
  let run := longestRun t u
  if run.length = 0 then 0
  else
    have := longestRun_le t u
    shared (t.take run.first) (u.take run.second) + run.length +
      shared (t.drop (run.first + run.length)) (u.drop (run.second + run.length))
termination_by t.length
decreasing_by all_goals grind

/-- Whether the characters that two texts share make up three fifths of both. -/
def isSimilar (t u : Text) : Bool :=
  3 * (t.length + u.length) ≤ 10 * shared t u

end ScopedStyles.Text
