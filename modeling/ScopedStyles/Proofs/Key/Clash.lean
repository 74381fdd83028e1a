import ScopedStyles.Proofs.Grammar.WellFormed
import ScopedStyles.Proofs.Key.Stream
import ScopedStyles.Settings

/-!
# Scopes whose animations clash

The qualified name of an animation is the key of its scope, a hyphen and the name that it has within
the scope. The hyphen is a letter of the keys and may stand in names, so it does not tell where the
key ends: if one key goes on from another with a hyphen, a name in the scope of the shorter key can
spell out the rest of the longer one. Two scopes give out the same qualified name in this case and
in no other.

## Main definitions

* `ReachesInto` — a name spells out the rest of a longer key.

## Main statements

* `qualify_eq_qualify_iff` — when names of two scopes have the same qualified form.
* `KeyStream.exists_key_eq_append` — a key goes on in other keys.
* `identifiers_clash_iff` — when animations of two sources have the same qualified name.
-/

namespace ScopedStyles

/-- Behind the key of its scope and a hyphen, a name spells the rest of another key, which goes on
from there, and a name in the scope of that key. -/
def ReachesInto (scope name scope' name' : Text) : Prop :=
  ∃ rest, scope' = scope ++ '-' :: rest ∧ name = rest ++ '-' :: name'

theorem qualify_eq_of_reachesInto {scope name scope' name' : Text}
    (h : ReachesInto scope name scope' name') : qualify scope name = qualify scope' name' := by
  obtain ⟨rest, rfl, rfl⟩ := h
  simp [qualify]

/-- Of two different keys, the longer one has to start with the shorter one and its hyphen. -/
theorem qualify_eq_qualify_iff {scope name scope' name' : Text} (hne : scope ≠ scope') :
    qualify scope name = qualify scope' name' ↔
      ReachesInto scope name scope' name' ∨ ReachesInto scope' name' scope name := by
  constructor
  · intro h
    have reaches {s n s' n' rest : Text} (hne : s ≠ s') (hs : s' = s ++ rest)
        (hn : '-' :: n = rest ++ '-' :: n') : ReachesInto s n s' n' := by
      cases rest with
      | nil => exact absurd (by simpa using hs.symm) hne
      | cons c rest =>
        obtain ⟨rfl, hname⟩ := List.cons.inj hn
        exact ⟨rest, hs, hname⟩
    rcases List.append_eq_append_iff.1 h with ⟨rest, hscope, hname⟩ | ⟨rest, hscope, hname⟩
    · exact .inl (reaches hne hscope hname)
    · exact .inr (reaches hne.symm hscope hname)
  · rintro (h | h)
    · exact qualify_eq_of_reachesInto h
    · exact (qualify_eq_of_reachesInto h).symm

/-- A stream hands out every key that goes on from one of its keys with letters of its alphabet. -/
theorem KeyStream.exists_key_eq_append (s : KeyStream) (i : Nat) {rest : Text}
    (h : ∀ c ∈ rest, c ∈ s.alphabet.letters) : ∃ j, s.key j = s.key i ++ rest := by
  obtain ⟨hne, hletters⟩ := s.alphabet.wordAt_mem_words i
  have hword : s.alphabet.wordAt i ++ rest ∈ s.alphabet.words :=
    ⟨by simp [hne], List.forall_mem_append.2 ⟨hletters, h⟩⟩
  obtain ⟨j, hj⟩ := s.alphabet.exists_wordAt_eq hword
  exact ⟨j, by simp [key, hj]⟩

/-- The table of a source that is read holds qualified names. -/
theorem qualify_of_get? {scope source name identifier : Text} {tree : RuleTree}
    (h : parse scope source = .ok tree) (hname : tree.keyframes.get? name = some identifier) :
    identifier = qualify scope name := by
  obtain ⟨before, after, hentries, -⟩ := List.lookup_eq_some_iff.1 hname
  have hentry : (name, identifier) ∈ tree.keyframes.entries := by simp [hentries]
  exact ((wellFormed_of_parse h).keyframes _ hentry).2

/-- Animations of two sources that are read under different keys of the shared stream have the same
qualified name exactly if one key goes on from the other with a hyphen and the name in the scope of
the shorter key spells out how. No key is free of this: the stream hands out every key that goes on
from it with a hyphen and letters of the alphabet. -/
theorem identifiers_clash_iff {i j : Nat} {source source' name name' identifier identifier' : Text}
    {tree tree' : RuleTree} (hij : i ≠ j)
    (h : parse (KeyStream.shared.key i) source = .ok tree)
    (h' : parse (KeyStream.shared.key j) source' = .ok tree')
    (hname : tree.keyframes.get? name = some identifier)
    (hname' : tree'.keyframes.get? name' = some identifier') :
    (identifier = identifier' ↔
      ReachesInto (KeyStream.shared.key i) name (KeyStream.shared.key j) name' ∨
        ReachesInto (KeyStream.shared.key j) name' (KeyStream.shared.key i) name) ∧
    ∀ rest : Text, (∀ c ∈ rest, c ∈ Alphabet.ofClassNames.letters) →
      ∃ n, KeyStream.shared.key n = KeyStream.shared.key i ++ '-' :: rest := by
  constructor
  · rw [qualify_of_get? h hname, qualify_of_get? h' hname']
    exact qualify_eq_qualify_iff (KeyStream.shared.key_injective.ne hij)
  · intro rest hrest
    have hhyphen : '-' ∈ Alphabet.ofClassNames.letters := by decide
    exact KeyStream.shared.exists_key_eq_append i (List.forall_mem_cons.2 ⟨hhyphen, hrest⟩)

/-- Under the first key, a name with a hyphen in front. -/
theorem parse_first_key : parse (KeyStream.shared.key 0) "@keyframes -x{}".toList =
    .ok ⟨[.keyframes "__--x".toList []], ⟨[("-x".toList, "__--x".toList)]⟩⟩ := by
  decide +kernel

/-- Under the fortieth key, which has the hyphen itself, the name without it. -/
theorem parse_fortieth_key : parse (KeyStream.shared.key 39) "@keyframes x{}".toList =
    .ok ⟨[.keyframes "__--x".toList []], ⟨[(['x'], "__--x".toList)]⟩⟩ := by
  decide +kernel

theorem identifiers_clash_fortieth :
    ReachesInto (KeyStream.shared.key 0) "-x".toList (KeyStream.shared.key 39) ['x'] ∨
      ReachesInto (KeyStream.shared.key 39) ['x'] (KeyStream.shared.key 0) "-x".toList :=
  (identifiers_clash_iff (by decide) parse_first_key parse_fortieth_key rfl rfl).1.1 rfl

/-- It is not so that animations of different scopes always have different qualified names. -/
theorem identifiers_not_distinct : ¬ ∀ (i j : Nat) (source source' name name' : Text)
    (tree tree' : RuleTree), i ≠ j → parse (KeyStream.shared.key i) source = .ok tree →
      parse (KeyStream.shared.key j) source' = .ok tree' → name ∈ tree.keyframes.keys →
      name' ∈ tree'.keyframes.keys → tree.keyframes.get? name ≠ tree'.keyframes.get? name' := by
  intro h
  exact h 0 39 _ _ "-x".toList ['x'] _ _ (by decide) parse_first_key parse_fortieth_key
    (by decide) (by decide) rfl

end ScopedStyles
