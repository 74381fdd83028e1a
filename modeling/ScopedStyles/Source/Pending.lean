import ScopedStyles.Delimiter

/-!
# Chunks of a source

A source is read one character at a time, with a look at the next one. Comments are left out, runs
of blanks are collapsed, and each delimiter outside comments ends a chunk. What has been read since
the last delimiter is pending.

A blank is kept, as one space, if something is pending that does not end in a space and neither the
character before it nor the one after it makes a space superfluous. A comment counts as a character
that does not.

## Main definitions

* `Pending.read` — the step from one character to the next.
* `Pending.after`, `Pending.chunks` — a text read character by character.
* `Source.chunks` — the chunks of a source.
* `Source.remainder` — what is pending at the end of a source.
-/

namespace ScopedStyles

/-- Where a place in a source is, as regards comments. -/
inductive Phase
  /-- Outside comments. -/
  | outside
  /-- Between the two characters that open a comment. -/
  | opening
  /-- Inside a comment. -/
  | inside
  /-- Between the two characters that close a comment. -/
  | closing
  deriving DecidableEq, Repr

/-- What has been read since the last delimiter. -/
structure Pending where
  phase : Phase := .outside
  /-- Whether the character read last makes a space after it superfluous. -/
  tight : Bool := true
  /-- The pending text, the latest character first. -/
  gathered : Text := []
  deriving DecidableEq, Repr

namespace Pending

/-- Whether a character makes a space before it superfluous. -/
def drawsNear (c : Char) : Bool :=
  c = '{' || c = '}' || c = ';' || c = ','

/-- The pending text. -/
def text (p : Pending) : Text :=
  p.gathered.reverse

/-- The delimiter that a character is, unless it stands in a comment. -/
def delimiter? (p : Pending) (c : Char) : Option Delimiter :=
  if p.phase = .outside then Delimiter.ofChar? c else none

/-- Whether a blank before `next` is kept. -/
def keepsBlank (p : Pending) (next : Option Char) : Bool :=
  !p.tight && p.gathered.head?.any (· ≠ ' ') && !next.any drawsNear

/-- What is pending once `c` has been read, where `next` follows. -/
def read (p : Pending) (c : Char) (next : Option Char) : Pending :=
  match p.phase with
  | .opening => { p with phase := .inside }
  | .inside => if c = '*' && next = some '/' then { p with phase := .closing } else p
  | .closing => { p with phase := .outside }
  | .outside =>
    if c = '/' && next = some '*' then { p with phase := .opening, tight := false }
    else if c.isWhitespace then
      let gathered := if p.keepsBlank next then ' ' :: p.gathered else p.gathered
      { p with tight := true, gathered }
    else if (Delimiter.ofChar? c).isSome then {}
    else { p with tight := c = ':', gathered := c :: p.gathered }

/-- What is pending at the end of a text, where `next` follows. -/
def after (p : Pending) (next : Option Char) : Text → Pending
  | [] => p
  | c :: rest => after (p.read c (rest.head?.or next)) next rest

/-- The chunks that end in a text whose first character stands at `offset`, where `next` follows the
text. -/
def chunks (p : Pending) (offset : Nat) (next : Option Char) : Text → List Chunk
  | [] => []
  | c :: rest =>
    match p.delimiter? c with
    | some d => ⟨p.text, d, offset⟩ :: chunks (p.read c (rest.head?.or next)) (offset + 1) next rest
    | none => chunks (p.read c (rest.head?.or next)) (offset + 1) next rest

theorem delimiter?_char {p : Pending} (h : p.phase = .outside) (d : Delimiter) :
    p.delimiter? d.char = some d := by
  simp [delimiter?, h]

/-- Nothing is pending after a delimiter. -/
theorem read_of_delimiter? {p : Pending} {c : Char} {d : Delimiter} (h : p.delimiter? c = some d)
    (next : Option Char) : p.read c next = {} := by
  unfold delimiter? at h
  split at h
  · next hphase =>
    obtain rfl := Delimiter.ofChar?_eq_some_iff.1 h
    cases d <;> simp [read, hphase, Delimiter.char, Char.isWhitespace, Delimiter.ofChar?]
  · simp at h

@[simp] theorem after_nil (p : Pending) (next : Option Char) : p.after next [] = p := rfl

@[simp] theorem chunks_nil (p : Pending) (offset : Nat) (next : Option Char) :
    p.chunks offset next [] = [] := rfl

/-- Reading a text after another goes on from where the first one leaves off. -/
theorem after_append (p : Pending) (next : Option Char) (a b : Text) :
    p.after next (a ++ b) = (p.after (b.head?.or next) a).after next b := by
  induction a generalizing p with
  | nil => rfl
  | cons c a ih =>
    simp only [List.cons_append, after, ih]
    cases a <;> simp

theorem chunks_append (p : Pending) (offset : Nat) (next : Option Char) (a b : Text) :
    p.chunks offset next (a ++ b) =
      p.chunks offset (b.head?.or next) a ++
        (p.after (b.head?.or next) a).chunks (offset + a.length) next b := by
  induction a generalizing p offset with
  | nil => rfl
  | cons c a ih =>
    have hnext : (a ++ b).head?.or next = a.head?.or (b.head?.or next) := by cases a <;> simp
    simp only [List.cons_append, chunks, after, ih, hnext, List.length_cons]
    have hoffset : offset + 1 + a.length = offset + (a.length + 1) := by omega
    rw [hoffset]
    split <;> rfl

end Pending

/-- The chunks of a source. -/
def Source.chunks (source : Text) : List Chunk :=
  Pending.chunks {} 0 none source

/-- The text after the last delimiter of a source, comments left out and blanks collapsed. -/
def Source.remainder (source : Text) : Text :=
  (Pending.after {} none source).text

end ScopedStyles
