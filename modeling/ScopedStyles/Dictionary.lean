import ScopedStyles.Text.Basic

/-!
# Dictionaries

Texts under keys, in the order in which the keys came first. A later value for a key takes the
place of the earlier one. Declarations and the table of animation names are dictionaries.

## Main definitions

* `Dictionary.insert` — gives a key a value, in the key's old place or at the end.
* `Dictionary.get?` — the value of a key.
* `Dictionary.same` — equality that leaves the order aside.
-/

namespace ScopedStyles

/-- Keys with their values. -/
structure Dictionary where
  entries : List (Text × Text) := []
  deriving DecidableEq, Repr

namespace Dictionary

instance : EmptyCollection Dictionary :=
  ⟨{}⟩

/-- The entries after `key` has been given `value`. -/
def insertEntry (key value : Text) : List (Text × Text) → List (Text × Text)
  | [] => [(key, value)]
  | entry :: rest =>
    if entry.1 = key then (key, value) :: rest else entry :: insertEntry key value rest

/-- Gives a key a value: in the key's place if it has one, otherwise at the end. -/
def insert (d : Dictionary) (key value : Text) : Dictionary :=
  ⟨insertEntry key value d.entries⟩

/-- The value of a key. -/
def get? (d : Dictionary) (key : Text) : Option Text :=
  d.entries.lookup key

/-- The value of a key, or the key itself if it has none. -/
def rename (d : Dictionary) (key : Text) : Text :=
  (d.get? key).getD key

/-- The keys in their order. -/
def keys (d : Dictionary) : List Text :=
  d.entries.map (·.1)

/-- The number of keys. -/
def size (d : Dictionary) : Nat :=
  d.entries.length

/-- Whether there is no key. -/
def isEmpty (d : Dictionary) : Bool :=
  d.entries.isEmpty

/-- Gives the keys of `e` the values they have there. -/
def update (d e : Dictionary) : Dictionary :=
  e.entries.foldl (fun d entry => d.insert entry.1 entry.2) d

/-- The dictionary that arises from giving each key its value in turn. -/
def ofList (entries : List (Text × Text)) : Dictionary :=
  update ∅ ⟨entries⟩

/-- Whether two dictionaries have the same keys with the same values, in whatever order. -/
def same (d e : Dictionary) : Bool :=
  d.size = e.size && d.keys.all fun key => d.get? key = e.get? key

@[simp] theorem entries_empty : (∅ : Dictionary).entries = [] := rfl

@[simp] theorem get?_empty (key : Text) : (∅ : Dictionary).get? key = none := rfl

@[simp] theorem keys_empty : (∅ : Dictionary).keys = [] := rfl

@[simp] theorem isEmpty_empty : (∅ : Dictionary).isEmpty = true := rfl

@[simp] theorem update_nil (d : Dictionary) : d.update ⟨[]⟩ = d := rfl

@[simp] theorem update_cons (d : Dictionary) (entry : Text × Text) (entries : List (Text × Text)) :
    d.update ⟨entry :: entries⟩ = (d.insert entry.1 entry.2).update ⟨entries⟩ := rfl

theorem update_append (d : Dictionary) (a b : List (Text × Text)) :
    d.update ⟨a ++ b⟩ = (d.update ⟨a⟩).update ⟨b⟩ :=
  List.foldl_append

@[simp] theorem isEmpty_insert (d : Dictionary) (key value : Text) :
    (d.insert key value).isEmpty = false := by
  obtain ⟨_ | ⟨entry, rest⟩⟩ := d
  · rfl
  · simp only [insert, insertEntry, isEmpty]
    split <;> rfl

@[simp] theorem isEmpty_update (d : Dictionary) (entries : List (Text × Text)) :
    (d.update ⟨entries⟩).isEmpty = (d.isEmpty && entries.isEmpty) := by
  induction entries generalizing d with
  | nil => simp
  | cons entry entries ih => simp [ih]

theorem get?_insert (d : Dictionary) (key value other : Text) :
    (d.insert key value).get? other = if other = key then some value else d.get? other := by
  obtain ⟨entries⟩ := d
  simp only [insert, get?]
  induction entries with
  | nil =>
    by_cases h : other = key
    · simp [insertEntry, h]
    · simp [insertEntry, List.lookup_cons, h, beq_eq_false_iff_ne.2 h]
  | cons entry rest ih =>
    obtain ⟨k, v⟩ := entry
    by_cases hk : k = key
    · subst hk
      by_cases h : other = k
      · simp [insertEntry, h]
      · simp [insertEntry, List.lookup_cons, h, beq_eq_false_iff_ne.2 h]
    · by_cases h : other = k
      · simp [insertEntry, h, hk]
      · simp [insertEntry, List.lookup_cons, hk, ih, beq_eq_false_iff_ne.2 h]

/-- A key keeps its place, and a new key comes last. -/
theorem keys_insert (d : Dictionary) (key value : Text) :
    (d.insert key value).keys = if key ∈ d.keys then d.keys else d.keys ++ [key] := by
  obtain ⟨entries⟩ := d
  simp only [insert, keys]
  induction entries with
  | nil => simp [insertEntry]
  | cons entry rest ih =>
    by_cases hk : entry.1 = key
    · simp [insertEntry, hk]
    · simp only [insertEntry, hk, if_false, List.map_cons, ih, List.mem_cons, Ne.symm hk, false_or]
      split <;> simp_all

theorem mem_keys_insert_self (d : Dictionary) (key value : Text) :
    key ∈ (d.insert key value).keys := by
  rw [keys_insert]
  split
  · assumption
  · simp

theorem get?_eq_none_iff {d : Dictionary} {key : Text} : d.get? key = none ↔ key ∉ d.keys := by
  rw [get?, List.lookup_eq_none_iff, keys, List.mem_map]
  constructor
  · rintro h ⟨entry, hentry, rfl⟩
    simpa using h entry hentry
  · intro h entry hentry
    simpa using fun hkey : key = entry.1 => h ⟨entry, hentry, hkey.symm⟩

theorem exists_get?_of_mem_keys {d : Dictionary} {key : Text} (h : key ∈ d.keys) :
    ∃ value, d.get? key = some value :=
  Option.ne_none_iff_exists'.1 fun hnone => get?_eq_none_iff.1 hnone h

/-- No key gets a second entry. -/
theorem nodup_keys_insert {d : Dictionary} (h : d.keys.Nodup) (key value : Text) :
    (d.insert key value).keys.Nodup := by
  rw [keys_insert]
  split
  · exact h
  · next hk =>
    refine List.nodup_append.2 ⟨h, by simp, fun a ha b hb => ?_⟩
    rintro rfl
    exact hk (by simpa using List.mem_singleton.1 hb ▸ ha)

theorem mem_entries_insert {d : Dictionary} {key value : Text} {entry : Text × Text}
    (h : entry ∈ (d.insert key value).entries) : entry = (key, value) ∨ entry ∈ d.entries := by
  obtain ⟨entries⟩ := d
  simp only [insert] at h ⊢
  induction entries with
  | nil => exact .inl (List.mem_singleton.1 h)
  | cons first rest ih =>
    rw [insertEntry] at h
    split at h
    · exact (List.mem_cons.1 h).imp_right (List.mem_cons_of_mem first)
    · rcases List.mem_cons.1 h with rfl | h
      · exact .inr (List.mem_cons_self ..)
      · exact (ih h).imp_right (List.mem_cons_of_mem first)

theorem mem_entries_update {d : Dictionary} {entries : List (Text × Text)} {entry : Text × Text}
    (h : entry ∈ (d.update ⟨entries⟩).entries) : entry ∈ d.entries ∨ entry ∈ entries := by
  induction entries generalizing d with
  | nil => exact .inl h
  | cons first rest ih =>
    rcases ih h with h | h
    · rcases mem_entries_insert h with rfl | h
      · exact .inr (List.mem_cons_self ..)
      · exact .inl h
    · exact .inr (List.mem_cons_of_mem first h)

theorem nodup_keys_update {d : Dictionary} (h : d.keys.Nodup) (entries : List (Text × Text)) :
    (d.update ⟨entries⟩).keys.Nodup := by
  induction entries generalizing d with
  | nil => exact h
  | cons first rest ih => exact ih (nodup_keys_insert h ..)

/-- A new key comes last. -/
theorem insert_of_not_mem {d : Dictionary} {key : Text} (h : key ∉ d.keys) (value : Text) :
    d.insert key value = ⟨d.entries ++ [(key, value)]⟩ := by
  obtain ⟨entries⟩ := d
  simp only [insert, mk.injEq]
  induction entries with
  | nil => rfl
  | cons entry rest ih =>
    simp only [keys, List.map_cons, List.mem_cons, not_or] at h ih
    rw [insertEntry, if_neg (Ne.symm h.1), ih h.2, List.cons_append]

theorem update_of_nodup {d : Dictionary} {entries : List (Text × Text)}
    (h : (d.entries ++ entries).map (·.1) |>.Nodup) :
    d.update ⟨entries⟩ = ⟨d.entries ++ entries⟩ := by
  induction entries generalizing d with
  | nil => simp
  | cons entry rest ih =>
    have hnew : entry.1 ∉ d.keys := by
      rw [List.map_append, List.map_cons] at h
      exact fun hmem => (List.nodup_append.1 h).2.2 _ hmem _ List.mem_cons_self rfl
    rw [update_cons, insert_of_not_mem hnew, ih (by simpa using h)]
    simp

/-- A dictionary arises from its own entries. -/
theorem ofList_entries {d : Dictionary} (h : d.keys.Nodup) : ofList d.entries = d :=
  update_of_nodup (d := ∅) h

/-- Of two values for a key the later one counts. -/
theorem insert_insert_self (d : Dictionary) (key value value' : Text) :
    (d.insert key value).insert key value' = d.insert key value' := by
  obtain ⟨entries⟩ := d
  simp only [insert, mk.injEq]
  induction entries with
  | nil => simp [insertEntry]
  | cons entry rest ih =>
    by_cases h : entry.1 = key
    · simp [insertEntry, h]
    · simp [insertEntry, h, ih]

/-- A key that has its place already keeps it, so other keys may come before or after. -/
theorem insert_comm_of_mem {d : Dictionary} {key other : Text} (h : key ∈ d.keys)
    (hne : other ≠ key) (value value' : Text) :
    (d.insert other value').insert key value = (d.insert key value).insert other value' := by
  obtain ⟨entries⟩ := d
  simp only [insert, mk.injEq]
  simp only [keys] at h
  induction entries with
  | nil => simp at h
  | cons entry rest ih =>
    by_cases hkey : entry.1 = key
    · have hother : entry.1 ≠ other := fun h => hne (h.symm.trans hkey)
      simp [insertEntry, hkey, hne.symm]
    · have hrest : key ∈ rest.map (·.1) := by simpa [Ne.symm hkey] using h
      by_cases hother : entry.1 = other
      · simp [insertEntry, hother, hne]
      · simp [insertEntry, hkey, hother, ih hrest]

theorem insert_update_comm {d : Dictionary} {key : Text} (h : key ∈ d.keys) (value : Text)
    {entries : List (Text × Text)} (hnew : key ∉ entries.map (·.1)) :
    (d.update ⟨entries⟩).insert key value = (d.insert key value).update ⟨entries⟩ := by
  induction entries generalizing d with
  | nil => rfl
  | cons entry rest ih =>
    rw [List.map_cons, List.mem_cons, not_or] at hnew
    have hmem : key ∈ (d.insert entry.1 entry.2).keys := by
      rw [keys_insert]
      split <;> simp [h]
    rw [update_cons, update_cons, ih hmem hnew.2, insert_comm_of_mem h (Ne.symm hnew.1)]

/-- A key that is new to a dictionary or changed in it is new or changed in what comes of it. -/
theorem update_insert (d : Dictionary) {e : Dictionary} (h : e.keys.Nodup) (key value : Text) :
    d.update (e.insert key value) = (d.update e).insert key value := by
  obtain ⟨entries⟩ := e
  change d.update ⟨insertEntry key value entries⟩ = _
  simp only [keys] at h
  induction entries generalizing d with
  | nil => rfl
  | cons entry rest ih =>
    rw [List.map_cons, List.nodup_cons] at h
    rw [insertEntry]
    split
    · next hkey =>
      subst hkey
      rw [update_cons, update_cons, insert_update_comm (mem_keys_insert_self ..) value h.1,
        insert_insert_self]
    · rw [update_cons, update_cons, ih _ h.2]

theorem update_update (d : Dictionary) {e : Dictionary} (h : e.keys.Nodup)
    (entries : List (Text × Text)) :
    d.update (e.update ⟨entries⟩) = (d.update e).update ⟨entries⟩ := by
  induction entries generalizing e with
  | nil => rfl
  | cons entry rest ih =>
    rw [update_cons, update_cons, ih (nodup_keys_insert h ..), update_insert d h]

/-- Updating with what arises from some entries is updating with the entries. -/
theorem update_ofList (d : Dictionary) (entries : List (Text × Text)) :
    d.update (ofList entries) = d.update ⟨entries⟩ :=
  update_update d (e := ∅) .nil entries

theorem ofList_append (a b : List (Text × Text)) :
    ofList (a ++ b) = (ofList a).update (ofList b) := by
  rw [update_ofList, ofList, update_append]
  rfl

end Dictionary

end ScopedStyles
