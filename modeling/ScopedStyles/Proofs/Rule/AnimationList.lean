import ScopedStyles.Proofs.Rule.Reference
import ScopedStyles.Proofs.Rule.Renaming
import ScopedStyles.Proofs.Text.Words

/-!
# Lists of animations

The value of `animation` is a list, and in each of its entries the first word is renamed on its own.
As long as names and identifiers are words without commas, the entries and the other words stay what
they are. The value of `animation-name` is renamed as a whole, so where it is a list, its names are
not.

## Main definitions

* `Animation.entries` — the entries of a list.
* `Animation.IsName` — a word that can stand in a list.
* `Animation.EntryRenamed` — an entry before and after its animation is renamed.

## Main statements

* `Animation.renamed_alike_iff` — when the two properties rename a list alike.
* `Animation.splitOn_renameList` — the entries of a list are renamed one by one.
* `animation_entries_renamed` — the lists of a source that is read.
-/

namespace ScopedStyles

namespace Animation

variable {names : Dictionary} {value : Text}

/-! ## Entries without their blanks -/

/-- The entries of a list, without the blanks around them. -/
def entries (value : Text) : List Text :=
  (value.splitOn ',').map Text.trim

theorem entries_ne_nil (value : Text) : entries value ≠ [] := by
  simp [entries]

theorem not_mem_of_mem_entries {entry : Text} (h : entry ∈ entries value) : ',' ∉ entry := by
  obtain ⟨piece, hpiece, rfl⟩ := List.mem_map.1 h
  exact fun hcomma => Text.not_mem_of_mem_splitOn hpiece (Text.mem_of_mem_trim hcomma)

/-- The entries of lists in a row are the entries of one list after those of the other. -/
theorem entries_intercalate {parts : List Text} (h : parts ≠ []) :
    entries ([','].intercalate parts) = parts.flatMap entries := by
  induction parts with
  | nil => exact absurd rfl h
  | cons part parts ih =>
    cases parts with
    | nil => simp
    | cons next parts =>
      rw [List.flatMap_cons, ← ih (by simp), List.intercalate_cons_cons,
        List.append_assoc, List.singleton_append, entries, List.splitOn_append_cons_self,
        List.map_append]
      rfl

theorem entries_eq_singleton_iff {entry : Text} (h : ',' ∉ entry) :
    entries value = [entry] ↔ value.trim = entry := by
  constructor
  · intro hentries
    obtain ⟨piece, hsplit, rfl⟩ := List.map_eq_singleton_iff.1 hentries
    have hvalue : [','].intercalate (value.splitOn ',') = value := List.intercalate_splitOn ','
    rw [← hvalue, hsplit, List.intercalate_singleton]
  · rintro rfl
    obtain ⟨a, b, hvalue, ha, hb⟩ := Text.exists_eq_trim value
    have hcomma : ',' ∉ value := by
      rw [hvalue, List.mem_append, List.mem_append]
      rintro ((hmem | hmem) | hmem)
      · exact absurd (ha _ hmem) (by decide)
      · exact h hmem
      · exact absurd (hb _ hmem) (by decide)
    rw [entries, List.splitOn_eq_singleton hcomma, List.map_singleton]

/-! ## The two properties -/

/-- An entry that is a name becomes the identifier of the name. -/
theorem renameEntry_of_isWord {entry : Text} (h : entry.trim.IsWord) :
    renameEntry names entry = names.rename entry.trim := by
  rw [renameEntry, Text.words_eq_of_trim h]
  exact List.intercalate_singleton

/-- A list of names becomes the list of their identifiers. -/
theorem entries_renameList (h : ∀ name ∈ entries value, name.IsWord) :
    entries (renameList names value) =
      (entries value).flatMap fun name => entries (names.rename name) := by
  have hparts : (value.splitOn ',').map (renameEntry names) =
      (entries value).map names.rename := by
    rw [entries, List.map_map]
    exact List.map_congr_left fun entry hentry =>
      renameEntry_of_isWord (h _ (List.mem_map_of_mem hentry))
  have hne : (entries value).map names.rename ≠ [] := by simpa using entries_ne_nil value
  rw [renameList, hparts, entries_intercalate hne, List.flatMap_map]

/-- A list with one name in it becomes the identifier of the name. -/
theorem renameList_of_entries_eq (hentries : entries value = [value]) (h : value.IsWord) :
    renameList names value = names.rename value := by
  have hcomma : ',' ∉ value := not_mem_of_mem_entries (hentries ▸ List.mem_singleton_self value)
  have htrim : value.trim = value := (entries_eq_singleton_iff hcomma).1 hentries
  rw [renameList, List.splitOn_eq_singleton hcomma, List.map_singleton, List.intercalate_singleton,
    renameEntry_of_isWord (by rwa [htrim]), htrim]

/-- Lists in place of the members of a list make up that list only if each holds the member alone. -/
theorem flatMap_eq_self_iff {α : Type} {f : α → List α} (hf : ∀ t, f t ≠ []) {l : List α} :
    l.flatMap f = l ↔ ∀ t ∈ l, f t = [t] := by
  have hlength : ∀ l : List α, l.length ≤ (l.flatMap f).length := by
    intro l
    induction l with
    | nil => simp
    | cons t l ih =>
      have := List.length_pos_iff.2 (hf t)
      rw [List.flatMap_cons, List.length_append, List.length_cons]
      omega
  constructor
  · intro h
    induction l with
    | nil => simp
    | cons t l ih =>
      obtain ⟨first, rest, hfirst⟩ := List.exists_cons_of_ne_nil (hf t)
      rw [List.flatMap_cons, hfirst, List.cons_append] at h
      obtain ⟨rfl, htail⟩ := List.cons.inj h
      -- The other lists are as many as their members, which leaves nothing else for this one.
      have hrest : rest = [] := by
        have hsum := congrArg List.length htail
        have := hlength l
        rw [List.length_append] at hsum
        exact List.eq_nil_of_length_eq_zero (by omega)
      subst hrest
      exact List.forall_mem_cons.2 ⟨hfirst, ih htail⟩
  · intro h
    rw [List.flatMap_congr h]
    exact List.flatMap_singleton' l

/-- A list of names, with blanks around them, is renamed entry by entry where it is the value of
`animation`. Where it is the value of `animation-name`, a single name without blanks is renamed in
the same way; of a list that is no name as a whole, none is renamed, which comes to the same exactly
if no name of the list stands for something else; and a list that is a name as a whole becomes the
identifier of that. -/
theorem renamed_alike_iff (names : Dictionary) (value : Text)
    (h : ∀ name ∈ entries value, name.IsWord) :
    entries (renameValue names "animation".toList value) =
      (entries value).flatMap (fun name => entries (names.rename name)) ∧
    (entries value = [value] →
      renameValue names "animation-name".toList value =
        renameValue names "animation".toList value) ∧
    (names.get? value = none →
      (entries (renameValue names "animation-name".toList value) =
          entries (renameValue names "animation".toList value) ↔
        ∀ name ∈ entries value, (names.rename name).trim = name)) ∧
    ∀ identifier, names.get? value = some identifier →
      renameValue names "animation-name".toList value = identifier := by
  have hlist : renameValue names "animation".toList value = renameList names value := if_pos rfl
  have hname : renameValue names "animation-name".toList value = names.rename value := rfl
  rw [hlist, hname, entries_renameList h]
  refine ⟨rfl, fun hsingle => ?_, fun hnone => ?_, fun identifier hsome => ?_⟩
  · exact (renameList_of_entries_eq hsingle (h value (by simp [hsingle]))).symm
  · rw [Dictionary.rename, hnone, Option.getD_none, eq_comm,
      flatMap_eq_self_iff fun name => entries_ne_nil _]
    exact forall₂_congr fun name hmem => entries_eq_singleton_iff (not_mem_of_mem_entries hmem)
  · rw [Dictionary.rename, hsome, Option.getD_some]

/-- A list with a name in it that stands for something else, for one property and for the other. -/
theorem renamed_alike_iff_list :
    (∀ name ∈ entries "a , b".toList, name.IsWord) ∧
    (entries (renameValue ⟨[(['b'], "k-b".toList)]⟩ "animation-name".toList "a , b".toList) ≠
      entries (renameValue ⟨[(['b'], "k-b".toList)]⟩ "animation".toList "a , b".toList)) ∧
    entries (renameValue ⟨[(['c'], "k-c".toList)]⟩ "animation-name".toList "a , b".toList) =
      entries (renameValue ⟨[(['c'], "k-c".toList)]⟩ "animation".toList "a , b".toList) := by
  have h : ∀ name ∈ entries "a , b".toList, name.IsWord := by decide
  obtain ⟨-, -, hother, -⟩ := renamed_alike_iff ⟨[(['b'], "k-b".toList)]⟩ _ h
  obtain ⟨-, -, hsame, -⟩ := renamed_alike_iff ⟨[(['c'], "k-c".toList)]⟩ _ h
  refine ⟨h, fun heq => ?_, (hsame (by decide)).2 (by decide)⟩
  exact absurd ((hother (by decide)).1 heq) (by decide)

/-- The names of a list are renamed in `animation` and kept in `animation-name`. -/
theorem list_kept_in_animation_name :
    (∀ name ∈ entries "a,b".toList, name.IsWord) ∧
    entries (renameValue ⟨[(['a'], "k-a".toList), (['b'], "k-b".toList)]⟩
      "animation".toList "a,b".toList) = ["k-a".toList, "k-b".toList] ∧
    entries (renameValue ⟨[(['a'], "k-a".toList), (['b'], "k-b".toList)]⟩
      "animation-name".toList "a,b".toList) = [['a'], ['b']] ∧
    Dictionary.declarationText ⟨[("animation-name".toList, "a,b".toList)]⟩
      ⟨[(['a'], "k-a".toList), (['b'], "k-b".toList)]⟩ = "animation-name:a,b;".toList := by
  decide +kernel

/-! ## Entry by entry -/

/-- A word that can stand in a list. -/
structure IsName (t : Text) : Prop extends Text.IsWord t where
  not_comma : ',' ∉ t

/-- An entry before and after its animation is renamed: its first word is looked up and all others
stay what they are. An entry without words stays as it is. -/
structure EntryRenamed (names : Dictionary) (entry renamed : Text) : Prop where
  words : renamed.words = entry.words.modifyHead names.rename
  blank : entry.words = [] → renamed = entry

theorem isName_of_mem_words {entry word : Text} (hentry : ',' ∉ entry) (h : word ∈ entry.words) :
    IsName word where
  toIsWord := Text.isWord_of_mem_words h
  not_comma hcomma := hentry ((Text.isInfix_of_mem_words h).subset hcomma)

section

variable {entry : Text} (hnames : ∀ name, IsName name → IsName (names.rename name))

include hnames

/-- What stands in a renamed entry are names in place of names. -/
theorem isName_of_words_eq_cons {name : Text} {rest : List Text} (hentry : ',' ∉ entry)
    (hwords : entry.words = name :: rest) : ∀ word ∈ names.rename name :: rest, IsName word := by
  have hall : ∀ word ∈ name :: rest, IsName word :=
    fun word hword => isName_of_mem_words hentry (hwords ▸ hword)
  obtain ⟨hname, hrest⟩ := List.forall_mem_cons.1 hall
  exact List.forall_mem_cons.2 ⟨hnames name hname, hrest⟩

theorem not_mem_renameEntry (hentry : ',' ∉ entry) : ',' ∉ renameEntry names entry := by
  unfold renameEntry
  split
  · exact hentry
  · next name rest hwords =>
    have hall := isName_of_words_eq_cons hnames hentry hwords
    have hne : ∀ c ∈ [' '].intercalate (names.rename name :: rest), c ≠ ',' := by
      apply Text.forall_mem_intercalate (P := (· ≠ ',')) (List.forall_mem_singleton.2 (by decide))
      intro word hword c hc
      rintro rfl
      exact (hall word hword).not_comma hc
    exact fun hcomma => hne _ hcomma rfl

theorem words_renameEntry (hentry : ',' ∉ entry) :
    (renameEntry names entry).words = entry.words.modifyHead names.rename := by
  unfold renameEntry
  split
  · next hwords => rw [hwords, List.modifyHead_nil]
  · next name rest hwords =>
    have hall := isName_of_words_eq_cons hnames hentry hwords
    rw [Text.words_intercalate fun word hword => (hall word hword).toIsWord, hwords,
      List.modifyHead_cons]

theorem entryRenamed_renameEntry (hentry : ',' ∉ entry) :
    EntryRenamed names entry (renameEntry names entry) where
  words := words_renameEntry hnames hentry
  blank hwords := by rw [renameEntry, hwords]

/-- An entry that has been renamed is not changed any more if that is so for its name. -/
theorem renameEntry_renameEntry (hentry : ',' ∉ entry)
    (htwice : ∀ name, names.rename (names.rename name) = names.rename name) :
    renameEntry names (renameEntry names entry) = renameEntry names entry := by
  have hrenamed := words_renameEntry hnames hentry
  cases hwords : entry.words with
  | nil =>
    have hentry : renameEntry names entry = entry := by rw [renameEntry, hwords]
    rw [hentry, hentry]
  | cons name rest =>
    have hentry : renameEntry names entry = [' '].intercalate (names.rename name :: rest) := by
      rw [renameEntry, hwords]
    rw [hwords, List.modifyHead_cons] at hrenamed
    rw [renameEntry, hrenamed]
    dsimp only
    rw [htwice, hentry]

/-- The entries of a list are renamed one by one, and there are as many as before. -/
theorem splitOn_renameList (value : Text) :
    (renameList names value).splitOn ',' = (value.splitOn ',').map (renameEntry names) := by
  refine List.splitOn_intercalate ',' (fun renamed hrenamed => ?_) (by simp)
  obtain ⟨entry, hentry, rfl⟩ := List.mem_map.1 hrenamed
  exact not_mem_renameEntry hnames (Text.not_mem_of_mem_splitOn hentry)

theorem renameList_renameList
    (htwice : ∀ name, names.rename (names.rename name) = names.rename name) (value : Text) :
    renameList names (renameList names value) = renameList names value := by
  rw [renameList, splitOn_renameList hnames, List.map_map, renameList]
  congr 1
  refine List.map_congr_left fun entry hentry => ?_
  exact renameEntry_renameEntry hnames (Text.not_mem_of_mem_splitOn hentry) htwice

end

end Animation

/-! ## Sources -/

/-- Under a scope without blanks and commas, identifiers of names can stand where the names do. -/
theorem Content.isName_rename {scope : Text} (hscope : ∀ c ∈ scope, c ≠ ',' ∧ Text.isBlank c = false)
    (c : Content) {name : Text} (h : Animation.IsName name) :
    Animation.IsName ((c.tree scope).keyframes.rename name) := by
  rw [keyframes_tree, Dictionary.rename_graph]
  split
  · refine ⟨⟨by simp [qualify], ?_⟩, ?_⟩
    · intro d hd
      rw [qualify, List.mem_append, List.mem_cons] at hd
      rcases hd with hd | rfl | hd
      · exact (hscope d hd).2
      · decide
      · exact h.not_blank d hd
    · intro hcomma
      rw [qualify, List.mem_append, List.mem_cons] at hcomma
      rcases hcomma with hcomma | hcomma | hcomma
      · exact (hscope _ hcomma).1 rfl
      · cases hcomma
      · exact h.not_comma hcomma
  · exact h

/-- The table of a source that is read under a scope without blanks and commas changes nothing of
the value of `animation` but the first words of its entries. Doing so once more changes nothing if
no identifier in the table is a name in it too. -/
theorem animation_entries_renamed {scope source : Text} {tree : RuleTree}
    (h : parse scope source = .ok tree) (hscope : ∀ c ∈ scope, c ≠ ',' ∧ Text.isBlank c = false)
    (value : Text) :
    List.Forall₂ (Animation.EntryRenamed tree.keyframes) (value.splitOn ',')
      ((Animation.renameValue tree.keyframes "animation".toList value).splitOn ',') ∧
    ((∀ entry ∈ tree.keyframes.entries, entry.2 ∉ tree.keyframes.keys) →
      Animation.renameValue tree.keyframes "animation".toList
          (Animation.renameValue tree.keyframes "animation".toList value) =
        Animation.renameValue tree.keyframes "animation".toList value) := by
  obtain ⟨c, hc⟩ := exists_says_of_parse h
  obtain rfl := Except.ok.inj (h.symm.trans hc.parse_eq)
  have hnames : ∀ name, Animation.IsName name →
      Animation.IsName ((c.tree scope).keyframes.rename name) :=
    fun name hname => c.isName_rename hscope hname
  have hlist : ∀ value, Animation.renameValue (c.tree scope).keyframes "animation".toList value =
      Animation.renameList (c.tree scope).keyframes value := fun value => if_pos rfl
  simp only [hlist]
  constructor
  · rw [Animation.splitOn_renameList hnames]
    refine List.forall₂_map_right_iff.2 (List.forall₂_same.2 fun entry hentry => ?_)
    exact Animation.entryRenamed_renameEntry hnames (Text.not_mem_of_mem_splitOn hentry)
  · exact fun hkeys =>
      Animation.renameList_renameList hnames (Dictionary.rename_rename hkeys) value

/-- A name with a space and one with a comma stand for nothing in a list. -/
theorem animation_entries_renamed_spaced :
    ∃ tree, parse ['k'] "@keyframes a{}@keyframes a b{}@keyframes a,c{}".toList = .ok tree ∧
      Animation.renameValue tree.keyframes "animation".toList " a  b, ,c\ta,d a,".toList =
        "k-a b, ,c a,d a,".toList ∧
      List.Forall₂ (Animation.EntryRenamed tree.keyframes)
        [" a  b".toList, [' '], "c\ta".toList, "d a".toList, []]
        ["k-a b".toList, [' '], "c a".toList, "d a".toList, []] ∧
      Animation.renameValue tree.keyframes "animation".toList "k-a b, ,c a,d a,".toList =
        "k-a b, ,c a,d a,".toList := by
  have h : parse ['k'] "@keyframes a{}@keyframes a b{}@keyframes a,c{}".toList =
      .ok ⟨[.keyframes "k-a".toList [], .keyframes "k-a b".toList [],
        .keyframes "k-a,c".toList []], ⟨[(['a'], "k-a".toList), ("a b".toList, "k-a b".toList),
        ("a,c".toList, "k-a,c".toList)]⟩⟩ := by decide +kernel
  obtain ⟨hentries, htwice⟩ := animation_entries_renamed h
    (List.forall_mem_singleton.2 (by decide)) " a  b, ,c\ta,d a,".toList
  refine ⟨_, h, by decide +kernel, hentries, ?_⟩
  exact htwice (by decide +kernel)

end ScopedStyles
