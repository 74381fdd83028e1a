import ScopedStyles.Text.Basic

/-!
# Selectors

A nested rule set is selected below the rule set around it. Joining the selectors on the way from
the outermost block inwards gives the selector of the innermost one.

## Main definitions

* `Selector.attach` — a selector below another one.
* `Selector.ofScope` — the selector of a scope's class.
* `Selector.join?` — the selector at the end of a path.
-/

namespace ScopedStyles.Selector

/-- The selector `part` below `outer`. A pseudo-class or pseudo-element qualifies `outer` itself, so
no space comes between. -/
def attach (outer part : Text) : Text :=
  if part.head? = some ':' then outer ++ part else outer ++ ' ' :: part

/-- The selector of the elements that carry a scope's class. -/
def ofScope (scope : Text) : Text :=
  '.' :: scope

/-- The selector at the end of a path, which is given from the outside inwards. An empty path leads
nowhere. -/
def join? : List Text → Option Text
  | [] => none
  | first :: rest => some (rest.foldl attach first)

/-- What is said about a path that leads nowhere. -/
def emptyPathMessage : Text :=
  "list index out of range".toList

theorem isPrefix_attach (outer part : Text) : outer <+: attach outer part := by
  unfold attach
  split
  · exact ⟨part, rfl⟩
  · exact ⟨' ' :: part, rfl⟩

theorem isPrefix_foldl_attach (outer : Text) (parts : List Text) :
    outer <+: parts.foldl attach outer := by
  induction parts generalizing outer with
  | nil => exact List.prefix_rfl
  | cons part parts ih => exact (isPrefix_attach outer part).trans (ih _)

theorem join?_concat {path : List Text} {selector : Text} (h : join? path = some selector)
    (part : Text) : join? (path ++ [part]) = some (attach selector part) := by
  cases path with
  | nil => simp [join?] at h
  | cons first rest =>
    obtain rfl := Option.some.inj h
    simp [join?]

end ScopedStyles.Selector
