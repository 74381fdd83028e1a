import ScopedStyles.Proofs.Source.Outside
import ScopedStyles.Proofs.Text.Location

/-!
# Where faults are found

A fault is found at the delimiter that ends a chunk, or at the end of the source. What is read up to
a delimiter does not depend on what follows it, so a fault that is found there is found in every
source that starts in the same way.

## Main definitions

* `Fault.places` — the characters at which a fault is found.

## Main statements

* `Source.place_of_tree_eq_error` — what stands where a fault is found.
* `parse_error_located` — the offset, the line and the column of an error.
* `Source.tree_append_eq_error_iff` — a fault in the first part of a source is one of the chunks of
  that part.
* `parse_error_settled` — an error is settled by the source up to its place.
-/

namespace ScopedStyles

variable {scope : Text}

/-! ## Places of faults -/

/-- The characters at which a fault is found. Some are found at the end of a source, where there is
none. -/
def Fault.places : Fault → List (Option Char)
  | unexpectedOpenBrace _ | disallowedAtRule _ | unexpectedAtRule _ => [some '{']
  | unbalancedCloseBrace => [some '}']
  | invalidDeclaration _ => [some ';', some '}', none]
  | unclosedBlock => [none]

namespace Draft

variable {d : Draft} {text : Text} {fault : Fault}

theorem eq_invalidDeclaration_of_declare (h : d.declare text = .error fault) :
    fault = .invalidDeclaration text := by
  unfold declare at h
  split at h
  · cases h
  · exact (Except.error.inj h).symm

/-- Whatever is done with a draft after its last declaration, only that declaration can be faulty. -/
theorem exists_eq_invalidDeclaration_of_map {α : Type} {f : Draft → α}
    (h : (d.declareLast text).map f = .error fault) :
    ∃ declaration, fault = .invalidDeclaration declaration := by
  unfold declareLast at h
  split at h
  · cases h
  · cases hdeclare : d.declare text.trim with
    | ok d' => simp [hdeclare, Except.map] at h
    | error fault' =>
      rw [hdeclare] at h
      obtain rfl := Except.error.inj h
      exact ⟨_, eq_invalidDeclaration_of_declare hdeclare⟩

theorem places_of_openBlock (h : d.openBlock scope text = .error fault) :
    some '{' ∈ fault.places := by
  unfold openBlock at h
  split at h
  · obtain rfl := Except.error.inj h
    simp [Fault.places]
  · split at h
    all_goals cases h
    all_goals simp [Fault.places]

/-- A fault is found at the delimiter of the chunk that is read. -/
theorem places_of_read {delimiter : Delimiter} (h : d.read scope text delimiter = .error fault) :
    some delimiter.char ∈ fault.places := by
  cases delimiter with
  | semicolon =>
    obtain rfl := eq_invalidDeclaration_of_declare h
    simp [Fault.places, Delimiter.char]
  | openBrace => exact places_of_openBlock h
  | closeBrace =>
    rw [read] at h
    split at h
    · obtain rfl := Except.error.inj h
      simp [Fault.places, Delimiter.char]
    · obtain ⟨declaration, rfl⟩ := exists_eq_invalidDeclaration_of_map h
      simp [Fault.places, Delimiter.char]

theorem places_of_finish (h : d.finish scope text = .error fault) : none ∈ fault.places := by
  rw [finish] at h
  split at h
  · obtain ⟨declaration, rfl⟩ := exists_eq_invalidDeclaration_of_map h
    simp [Fault.places]
  · obtain rfl := Except.error.inj h
    simp [Fault.places]

/-- The first fault in a row of chunks is found at the delimiter of one of them. -/
theorem exists_of_readAll_eq_error {chunks : List Chunk} {offset : Nat}
    (h : d.readAll scope chunks = .error (fault, offset)) :
    ∃ chunk ∈ chunks, chunk.offset = offset ∧ some chunk.delimiter.char ∈ fault.places := by
  induction chunks generalizing d with
  | nil => cases h
  | cons chunk chunks ih =>
    rw [readAll] at h
    split at h
    · obtain ⟨chunk', hchunk', hplace⟩ := ih h
      exact ⟨chunk', List.mem_cons_of_mem _ hchunk', hplace⟩
    · next fault' hread =>
      obtain ⟨rfl, rfl⟩ : fault' = fault ∧ chunk.offset = offset := by simpa using h
      exact ⟨chunk, List.mem_cons_self, rfl, places_of_read hread⟩

end Draft

/-- A fault is found at a delimiter outside comments, or at the end of the source. -/
theorem Source.place_of_tree_eq_error {source : Text} {fault : Fault} {offset : Nat}
    (h : tree scope source = .error (fault, offset)) :
    (∃ a b, ∃ d : Delimiter, source = a ++ d.char :: b ∧ offset = a.length ∧
      Text.OutsideComments a (d.char :: b) ∧ some d.char ∈ fault.places) ∨
    offset = source.length ∧ none ∈ fault.places := by
  rcases tree_eq_error_iff.1 h with hread | ⟨hoffset, d, -, hfinish⟩
  · obtain ⟨chunk, hchunk, rfl, hplace⟩ := Draft.exists_of_readAll_eq_error hread
    obtain ⟨a, b, hsource, hoffset, houtside⟩ := exists_of_mem_chunks hchunk
    exact .inl ⟨a, b, chunk.delimiter, hsource, hoffset, houtside, hplace⟩
  · exact .inr ⟨hoffset, Draft.places_of_finish hfinish⟩

/-- An error stands at an offset in its source or at the end of it. Its line and its column are
those of the offset, and no other offset has the same ones. The character there is one at which such
a fault is found, and stands outside comments. -/
theorem parse_error_located {source : Text} {e : ParseError} (h : parse scope source = .error e) :
    e.offset ≤ source.length ∧
    (∀ l : Location, l.Follows (source.take e.offset) ↔ l = e.location) ∧
    (∀ offset ≤ source.length, e.location.Follows (source.take offset) → offset = e.offset) ∧
    source[e.offset]? ∈ e.fault.places ∧
    (e.offset < source.length →
      Text.OutsideComments (source.take e.offset) (source.drop e.offset)) := by
  obtain ⟨htree, hlocation⟩ := parse_eq_error_iff.1 h
  have hplace := Source.place_of_tree_eq_error htree
  have hle : e.offset ≤ source.length := by
    rcases hplace with ⟨a, b, d, hsource, hoffset, -⟩ | ⟨hoffset, -⟩
    · rw [hsource, hoffset, List.length_append]
      omega
    · omega
  refine ⟨hle, fun l => ?_, fun offset hoffset hfollows => ?_, ?_⟩
  · rw [Location.follows_iff, hlocation]
    rfl
  · have hsame : source.locate e.offset = source.locate offset :=
      hlocation.symm.trans (Location.follows_iff.1 hfollows)
    exact ((Text.locate_inj hle hoffset).1 hsame).symm
  · rcases hplace with ⟨a, b, d, rfl, hoffset, houtside, hplace⟩ | ⟨hoffset, hplace⟩
    · rw [hoffset]
      exact ⟨by simpa using hplace, fun _ => by simpa using houtside⟩
    · rw [hoffset]
      exact ⟨by simpa using hplace, fun hlt => absurd hlt (lt_irrefl _)⟩

theorem parse_error_located_lines :
    parse ['k'] "p\x7b\n/*;*/x\n\x7d".toList =
        .error ⟨.invalidDeclaration ['x'], 10, ⟨3, 1⟩⟩ ∧
      Location.Follows ⟨3, 1⟩ ("p\x7b\n/*;*/x\n\x7d".toList.take 10) ∧
      Text.OutsideComments "p\x7b\n/*;*/x\n".toList ['}'] := by
  have h : parse ['k'] "p\x7b\n/*;*/x\n\x7d".toList =
      .error ⟨.invalidDeclaration ['x'], 10, ⟨3, 1⟩⟩ := by decide +kernel
  obtain ⟨-, hfollows, -, -, houtside⟩ := parse_error_located h
  exact ⟨h, (hfollows _).2 rfl, houtside (by decide)⟩

/-! ## Sources that start in the same way -/

/-- A fault that is found in the first part of a source is one of the chunks of that part. -/
theorem Source.tree_append_eq_error_iff {a b : Text} {fault : Fault} {offset : Nat}
    (h : offset < a.length) :
    tree scope (a ++ b) = .error (fault, offset) ↔
      Draft.readAll scope {} (chunks a) = .error (fault, offset) := by
  rw [tree_eq_error_iff, chunks_eq_append, Draft.readAll_append, List.length_append]
  cases Draft.readAll scope {} (chunks a) with
  | error failure => simp [Except.bind]
  | ok d =>
    simp only [Except.bind, reduceCtorEq, iff_false, not_or, not_and]
    -- The other chunks and the end of the source stand behind the first part.
    refine ⟨fun hread => ?_, fun hoffset => by omega⟩
    obtain ⟨chunk, hchunk, rfl, -⟩ := Draft.exists_of_readAll_eq_error hread
    obtain ⟨chunk', -, rfl⟩ := List.mem_map.1 hchunk
    exact absurd h (Nat.not_lt.2 (Nat.le_add_right _ _))

/-- An error in front of the end of a source is settled by the source up to the character at which
it is found: every source that starts with the same characters has the same error. -/
theorem parse_error_settled {s t : Text} {e : ParseError} (h : parse scope s = .error e)
    (hfront : e.offset < s.length) (hsame : t.take (e.offset + 1) = s.take (e.offset + 1)) :
    parse scope t = .error e := by
  have hlength : e.offset < (s.take (e.offset + 1)).length := by
    rw [List.length_take]
    omega
  rw [parse_eq_error_iff] at h ⊢
  obtain ⟨htree, hlocation⟩ := h
  constructor
  · rw [← List.take_append_drop (e.offset + 1) s, Source.tree_append_eq_error_iff hlength] at htree
    rw [← List.take_append_drop (e.offset + 1) t, hsame, Source.tree_append_eq_error_iff hlength]
    exact htree
  · have htake : t.take e.offset = s.take e.offset := by
      simpa [List.take_take] using congrArg (List.take e.offset) hsame
    rw [hlocation, Text.locate, Text.locate, htake]

theorem parse_error_settled_unclosed :
    parse ['k'] "p\x7bx /*;*/ ;y:z\x7d".toList =
        .error ⟨.invalidDeclaration "x ".toList, 10, ⟨1, 11⟩⟩ ∧
      "p\x7bx /*;*/ ;/*".toList.take 11 = "p\x7bx /*;*/ ;y:z\x7d".toList.take 11 ∧
      parse ['k'] "p\x7bx /*;*/ ;/*".toList =
        .error ⟨.invalidDeclaration "x ".toList, 10, ⟨1, 11⟩⟩ := by
  have h : parse ['k'] "p\x7bx /*;*/ ;y:z\x7d".toList =
      .error ⟨.invalidDeclaration "x ".toList, 10, ⟨1, 11⟩⟩ := by decide +kernel
  have hsame : "p\x7bx /*;*/ ;/*".toList.take 11 = "p\x7bx /*;*/ ;y:z\x7d".toList.take 11 := by decide
  exact ⟨h, hsame, parse_error_settled h (by decide) hsame⟩

end ScopedStyles
