import ScopedStyles.Proofs.Rule.Pieces
import ScopedStyles.Proofs.Text.Words

/-!
# Renaming references

A value stays a value when the animations in it are renamed: it does not become empty, and all its
characters are spaces and commas, or come from what it was before or from a qualified name.

## Main statements

* `Animation.renameValue_ne_nil` — a value does not become empty.
* `Animation.forall_mem_renameValue` — what holds of all the characters goes on to do so.
-/

namespace ScopedStyles

theorem Text.forall_mem_intercalate {P : Char → Prop} {sep : Text} {parts : List Text}
    (hsep : ∀ c ∈ sep, P c) (hparts : ∀ part ∈ parts, ∀ c ∈ part, P c) :
    ∀ c ∈ sep.intercalate parts, P c := by
  induction parts with
  | nil => simp
  | cons part parts ih =>
    obtain ⟨hpart, hparts⟩ := List.forall_mem_cons.1 hparts
    cases parts with
    | nil => simpa using hpart
    | cons next parts =>
      rw [List.intercalate_cons_cons, List.append_assoc]
      exact List.forall_mem_append.2 ⟨hpart, List.forall_mem_append.2 ⟨hsep, ih hparts⟩⟩

theorem Dictionary.rename_eq_or (names : Dictionary) (key : Text) :
    names.rename key = key ∨ ∃ entry ∈ names.entries, names.rename key = entry.2 := by
  cases hget : names.get? key with
  | none => exact .inl (by simp [rename, hget])
  | some value =>
    obtain ⟨a, b, hentries, -⟩ := List.lookup_eq_some_iff.1 hget
    exact .inr ⟨(key, value), by simp [hentries], by simp [rename, hget]⟩

/-- What has been renamed stays as it is, unless it is the name of something else. -/
theorem Dictionary.rename_rename {names : Dictionary}
    (h : ∀ entry ∈ names.entries, entry.2 ∉ names.keys) (key : Text) :
    names.rename (names.rename key) = names.rename key := by
  rcases names.rename_eq_or key with hkey | ⟨entry, hentry, hkey⟩
  · rw [hkey, hkey]
  · rw [hkey, rename, get?_eq_none_iff.2 (h entry hentry), Option.getD_none]

namespace Animation

variable {names : Dictionary} {value : Text}

theorem rename_ne_nil (hnames : ∀ entry ∈ names.entries, entry.2 ≠ []) (h : value ≠ []) :
    names.rename value ≠ [] := by
  rcases names.rename_eq_or value with hname | ⟨entry, hentry, hname⟩
  · rwa [hname]
  · rw [hname]
    exact hnames entry hentry

theorem renameEntry_ne_nil (hnames : ∀ entry ∈ names.entries, entry.2 ≠ []) (h : value ≠ []) :
    renameEntry names value ≠ [] := by
  unfold renameEntry
  split
  · exact h
  · next name rest hwords =>
    have hname : names.rename name ≠ [] :=
      rename_ne_nil hnames (Text.ne_nil_of_mem_words (hwords ▸ List.mem_cons_self))
    cases rest with
    | nil => simpa using hname
    | cons next rest => simp [List.intercalate_cons_cons]

/-- Only the empty text is a list with one entry that is empty. -/
theorem renameList_ne_nil (hnames : ∀ entry ∈ names.entries, entry.2 ≠ []) (h : value ≠ []) :
    renameList names value ≠ [] := by
  intro hnil
  obtain ⟨first, rest, hsplit⟩ := List.exists_cons_of_ne_nil (List.splitOn_ne_nil ',' value)
  rw [renameList, hsplit, List.map_cons] at hnil
  cases rest with
  | nil =>
    have hvalue : [','].intercalate (value.splitOn ',') = value := List.intercalate_splitOn ','
    rw [hsplit, List.intercalate_singleton] at hvalue
    rw [List.map_nil, List.intercalate_singleton] at hnil
    exact renameEntry_ne_nil hnames (hvalue ▸ h) hnil
  | cons next rest => simp [List.intercalate_cons_cons] at hnil

theorem renameValue_ne_nil (hnames : ∀ entry ∈ names.entries, entry.2 ≠ []) (h : value ≠ [])
    (property : Text) : renameValue names property value ≠ [] := by
  unfold renameValue
  split
  · exact renameList_ne_nil hnames h
  split
  · exact rename_ne_nil hnames h
  · exact h

section

variable {P : Char → Prop}

theorem forall_mem_rename (hnames : ∀ entry ∈ names.entries, ∀ c ∈ entry.2, P c)
    (h : ∀ c ∈ value, P c) : ∀ c ∈ names.rename value, P c := by
  rcases names.rename_eq_or value with hname | ⟨entry, hentry, hname⟩
  · rwa [hname]
  · rw [hname]
    exact hnames entry hentry

theorem forall_mem_renameEntry (hspace : P ' ')
    (hnames : ∀ entry ∈ names.entries, ∀ c ∈ entry.2, P c) (h : ∀ c ∈ value, P c) :
    ∀ c ∈ renameEntry names value, P c := by
  unfold renameEntry
  split
  · exact h
  · next name rest hwords =>
    have hword : ∀ word ∈ name :: rest, ∀ c ∈ word, P c := fun word hword c hc =>
      h c ((Text.isInfix_of_mem_words (hwords ▸ hword)).subset hc)
    obtain ⟨hname, hrest⟩ := List.forall_mem_cons.1 hword
    apply Text.forall_mem_intercalate (List.forall_mem_singleton.2 hspace)
    exact List.forall_mem_cons.2 ⟨forall_mem_rename hnames hname, hrest⟩

theorem forall_mem_renameList (hspace : P ' ') (hcomma : P ',')
    (hnames : ∀ entry ∈ names.entries, ∀ c ∈ entry.2, P c) (h : ∀ c ∈ value, P c) :
    ∀ c ∈ renameList names value, P c := by
  apply Text.forall_mem_intercalate (List.forall_mem_singleton.2 hcomma)
  intro part hpart
  obtain ⟨entry, hentry, rfl⟩ := List.mem_map.1 hpart
  rw [List.splitOn_eq_splitOnP] at hentry
  apply forall_mem_renameEntry hspace hnames
  exact fun c hc => h c ((Text.isInfix_of_mem_splitOnP hentry).subset hc)

/-- What holds of the characters of a value and of all qualified names still holds once the
animations in the value are renamed. -/
theorem forall_mem_renameValue (hspace : P ' ') (hcomma : P ',')
    (hnames : ∀ entry ∈ names.entries, ∀ c ∈ entry.2, P c) (h : ∀ c ∈ value, P c)
    (property : Text) : ∀ c ∈ renameValue names property value, P c := by
  unfold renameValue
  split
  · exact forall_mem_renameList hspace hcomma hnames h
  split
  · exact forall_mem_rename hnames h
  · exact h

end

end Animation

end ScopedStyles
