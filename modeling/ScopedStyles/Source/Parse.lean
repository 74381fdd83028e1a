import ScopedStyles.Source.Pending
import ScopedStyles.Source.Draft

/-!
# Reading a source

The chunks of a source are read one after the other. The first fault ends the reading.

## Main definitions

* `parse` — the rule tree of a source under a scope.
-/

namespace ScopedStyles

/-- The draft after some chunks, or the first fault and the offset at which it was found. -/
def Draft.readAll (scope : Text) (d : Draft) : List Chunk → Except (Fault × Nat) Draft
  | [] => .ok d
  | chunk :: chunks =>
    match d.read scope chunk.text chunk.delimiter with
    | .ok d => d.readAll scope chunks
    | .error fault => .error (fault, chunk.offset)

/-- Some chunks and then others are read as all of them in a row. -/
theorem Draft.readAll_append (scope : Text) (d : Draft) (a b : List Chunk) :
    d.readAll scope (a ++ b) = (d.readAll scope a).bind (·.readAll scope b) := by
  induction a generalizing d with
  | nil => rfl
  | cons chunk a ih =>
    simp only [List.cons_append, readAll]
    split
    · exact ih _
    · rfl

/-- The rule tree of a source, or the first fault and its offset. -/
def Source.tree (scope source : Text) : Except (Fault × Nat) RuleTree :=
  match Draft.readAll scope {} (chunks source) with
  | .error failure => .error failure
  | .ok d => (d.finish scope (remainder source)).mapError fun fault => (fault, source.length)

/-- A source is faulty in one of its chunks or at its end. -/
theorem Source.tree_eq_error_iff {scope source : Text} {fault : Fault} {offset : Nat} :
    tree scope source = .error (fault, offset) ↔
      Draft.readAll scope {} (chunks source) = .error (fault, offset) ∨
      offset = source.length ∧ ∃ d, Draft.readAll scope {} (chunks source) = .ok d ∧
        d.finish scope (remainder source) = .error fault := by
  rw [tree]
  cases Draft.readAll scope {} (chunks source) with
  | error failure => simp
  | ok d =>
    dsimp only
    cases hfinish : d.finish scope (remainder source) with
    | ok tree =>
      change Except.ok tree = .error (fault, offset) ↔ _
      simp [hfinish]
    | error fault' =>
      change Except.error (fault', source.length) = .error (fault, offset) ↔ _
      simp [hfinish, and_comm, eq_comm]

/-- The rule tree of a source under a scope. -/
def parse (scope source : Text) : Except ParseError RuleTree :=
  (Source.tree scope source).mapError fun failure =>
    ⟨failure.1, failure.2, source.locate failure.2⟩

/-- A source is read if all of its chunks are and its end is. -/
theorem parse_eq_ok_iff {scope source : Text} {tree : RuleTree} :
    parse scope source = .ok tree ↔
      ∃ d, Draft.readAll scope {} (Source.chunks source) = .ok d ∧
        d.finish scope (Source.remainder source) = .ok tree := by
  rw [parse, Source.tree]
  cases Draft.readAll scope {} (Source.chunks source) with
  | error failure =>
    change Except.error _ = .ok tree ↔ _
    simp
  | ok d =>
    dsimp only
    cases hfinish : d.finish scope (Source.remainder source) with
    | ok tree' =>
      change Except.ok tree' = .ok tree ↔ _
      simp [hfinish]
    | error fault =>
      change Except.error _ = .ok tree ↔ _
      simp [hfinish]

theorem parse_eq_error_iff {scope source : Text} {e : ParseError} :
    parse scope source = .error e ↔
      Source.tree scope source = .error (e.fault, e.offset) ∧
        e.location = source.locate e.offset := by
  obtain ⟨fault, offset, location⟩ := e
  rw [parse]
  cases Source.tree scope source with
  | ok tree =>
    change Except.ok tree = .error (ParseError.mk fault offset location) ↔ _
    simp
  | error failure =>
    obtain ⟨fault', offset'⟩ := failure
    change Except.error (ParseError.mk fault' offset' (source.locate offset')) = _ ↔ _
    simp only [Except.error.injEq, ParseError.mk.injEq, Prod.mk.injEq]
    constructor
    · rintro ⟨rfl, rfl, rfl⟩
      exact ⟨⟨rfl, rfl⟩, rfl⟩
    · rintro ⟨⟨rfl, rfl⟩, rfl⟩
      exact ⟨rfl, rfl, rfl⟩

end ScopedStyles
