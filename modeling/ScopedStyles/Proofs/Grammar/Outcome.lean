import ScopedStyles.Proofs.Grammar.Piece
import ScopedStyles.Source.Parse

/-!
# What the outcome of a reading depends on

A reading comes to a rule tree or to a fault, and the offset of the fault is all that depends on
where the chunks of a source stand. Blanks at the ends of the chunks can be heard of only in the
text of a fault. So the pieces of a source settle its rule tree and, if it has none, the kind of its
fault.

## Main definitions

* `FaultKind`, `Fault.kind` — what kind of fault a fault is.

## Main statements

* `Draft.readAll_congr` — chunks that are read alike one by one are read alike in a row.
* `parse_congr_of_cut` — the texts and delimiters of the chunks settle the rule tree or the fault.
* `parse_congr_of_pieces` — the pieces settle the rule tree or the kind of the fault.
-/

namespace ScopedStyles

/-- The kinds of faults. -/
inductive FaultKind
  | unexpectedOpenBrace
  | unbalancedCloseBrace
  | invalidDeclaration
  | disallowedAtRule
  | unexpectedAtRule
  | unclosedBlock
  deriving DecidableEq, Repr

/-- The kind of a fault. -/
def Fault.kind : Fault → FaultKind
  | unexpectedOpenBrace _ => .unexpectedOpenBrace
  | unbalancedCloseBrace => .unbalancedCloseBrace
  | invalidDeclaration _ => .invalidDeclaration
  | disallowedAtRule _ => .disallowedAtRule
  | unexpectedAtRule _ => .unexpectedAtRule
  | unclosedBlock => .unclosedBlock

variable {scope source source' : Text}

section

variable {α β : Type} (look : Chunk → α) (tell : Fault → β)

/-- Chunks that are read alike one by one are read alike in a row. -/
theorem Draft.readAll_congr
    (hread : ∀ chunk chunk' : Chunk, look chunk = look chunk' → ∀ d : Draft,
      (d.read scope chunk.text chunk.delimiter).mapError tell =
        (d.read scope chunk'.text chunk'.delimiter).mapError tell)
    {chunks chunks' : List Chunk} (h : chunks.map look = chunks'.map look) (d : Draft) :
    (d.readAll scope chunks).mapError (fun failure => tell failure.1) =
      (d.readAll scope chunks').mapError fun failure => tell failure.1 := by
  induction chunks generalizing chunks' d with
  | nil =>
    obtain rfl : chunks' = [] := List.map_eq_nil_iff.1 h.symm
    rfl
  | cons chunk chunks ih =>
    obtain ⟨chunk', rest, rfl, hlook, hrest⟩ := List.map_eq_cons_iff.1 h.symm
    have hstep := hread chunk chunk' hlook.symm d
    rw [readAll, readAll]
    generalize d.read scope chunk.text chunk.delimiter = result at hstep ⊢
    generalize d.read scope chunk'.text chunk'.delimiter = result' at hstep ⊢
    cases result with
    | error fault =>
      cases result' with
      | error fault' => exact congrArg Except.error (Except.error.inj hstep)
      | ok d' => cases hstep
    | ok d₁ =>
      cases result' with
      | error fault' => cases hstep
      | ok d' =>
        obtain rfl := Except.ok.inj hstep
        exact ih hrest.symm d₁

/-- Sources whose chunks are read alike and whose ends are read alike come to the same end. -/
theorem parse_congr
    (hread : ∀ chunk chunk' : Chunk, look chunk = look chunk' → ∀ d : Draft,
      (d.read scope chunk.text chunk.delimiter).mapError tell =
        (d.read scope chunk'.text chunk'.delimiter).mapError tell)
    (hchunks : (Source.chunks source).map look = (Source.chunks source').map look)
    (hfinish : ∀ d : Draft,
      d.finish scope (Source.remainder source) = d.finish scope (Source.remainder source')) :
    (parse scope source).mapError (fun e => tell e.fault) =
      (parse scope source').mapError fun e => tell e.fault := by
  have hall := Draft.readAll_congr look tell hread hchunks {}
  unfold parse Source.tree
  generalize Draft.readAll scope {} (Source.chunks source) = result at hall ⊢
  generalize Draft.readAll scope {} (Source.chunks source') = result' at hall ⊢
  cases result with
  | error failure =>
    cases result' with
    | error failure' => exact congrArg Except.error (Except.error.inj hall)
    | ok d' => cases hall
  | ok d =>
    cases result' with
    | error failure' => cases hall
    | ok d' =>
      obtain rfl := Except.ok.inj hall
      dsimp only
      rw [hfinish]
      cases d.finish scope (Source.remainder source') <;> rfl

end

/-- The texts of the chunks, their delimiters and what follows the last of them settle the rule tree
or the fault. -/
theorem parse_congr_of_cut
    (hchunks : (Source.chunks source).map (fun chunk => (chunk.text, chunk.delimiter)) =
      (Source.chunks source').map fun chunk => (chunk.text, chunk.delimiter))
    (hremainder : Source.remainder source = Source.remainder source') :
    (parse scope source).mapError (·.fault) = (parse scope source').mapError (·.fault) := by
  refine parse_congr _ id (fun chunk chunk' hlook d => ?_) hchunks fun d => ?_
  · obtain ⟨htext, hdelimiter⟩ := Prod.mk.inj hlook
    rw [htext, hdelimiter]
  · rw [hremainder]

/-! ## Blanks at the ends of chunks -/

theorem Source.declaration?_eq_of_trim {text text' : Text} (h : text.trim = text'.trim) :
    declaration? text = declaration? text' := by
  refine Option.ext fun declaration => ?_
  obtain ⟨property, value⟩ := declaration
  rw [declaration?_eq_some_iff, declaration?_eq_some_iff, ← declares_trim_iff, h,
    declares_trim_iff]

namespace Draft

theorem declareLast_eq_of_trim {text text' : Text} (h : text.trim = text'.trim) (d : Draft) :
    d.declareLast text = d.declareLast text' := by
  rw [declareLast, declareLast, h]

theorem finish_eq_of_trim {text text' : Text} (h : text.trim = text'.trim) (d : Draft) :
    d.finish scope text = d.finish scope text' := by
  rw [finish, finish, declareLast_eq_of_trim h]

/-- A fault is of the same kind whatever blanks there are at the ends of a chunk. -/
theorem read_kind_of_piece {chunk chunk' : Chunk} (h : chunk.piece = chunk'.piece) (d : Draft) :
    (d.read scope chunk.text chunk.delimiter).mapError Fault.kind =
      (d.read scope chunk'.text chunk'.delimiter).mapError Fault.kind := by
  obtain ⟨htrim, hdelimiter⟩ := Piece.mk.inj h
  rw [← hdelimiter]
  cases chunk.delimiter with
  | semicolon =>
    rw [read, read, declare, declare, Source.declaration?_eq_of_trim htrim]
    cases Source.declaration? chunk'.text <;> rfl
  | openBrace => rw [read, read, htrim]
  | closeBrace => rw [read, read, declareLast_eq_of_trim htrim]

end Draft

/-- The pieces of a source settle its rule tree or the kind of its fault. -/
theorem parse_congr_of_pieces (hpieces : Source.pieces source = Source.pieces source')
    (hlast : Source.lastPiece source = Source.lastPiece source') :
    (parse scope source).mapError (·.fault.kind) =
      (parse scope source').mapError (·.fault.kind) :=
  parse_congr Chunk.piece Fault.kind (fun _ _ => Draft.read_kind_of_piece) hpieces
    (Draft.finish_eq_of_trim hlast)

end ScopedStyles
