import Mathlib.Data.List.Forall2
import ScopedStyles.Proofs.Grammar.Agreement
import ScopedStyles.Proofs.Rule.Walk
import ScopedStyles.FlatRule.Basic

/-!
# References to animations

The table of a rule tree is filled where blocks are opened, and rules come into being where blocks
are closed. Both follow the content of the source, so the table lists the animations of the tree,
each once, in the order in which a walk meets them. A reference in a declaration therefore leads to
an animation that is printed along with it, wherever the two stand in the source.

## Main definitions

* `Animation.NameBecomes`, `Animation.EntryBecomes`, `Animation.ValueBecomes` — what references
  become where some animations are known.
* `Dictionary.graph` — the table of a function.

## Main statements

* `Dictionary.ofList_graph` — the table of a function lists each key where it came first.
* `Content.identifiers_tree`, `Content.keyframes_tree` — both sides follow the content.
* `keyframes_resolved` — the table and the references of a source that is read.
-/

namespace ScopedStyles

/-! ## What references become -/

namespace Animation

variable (scope : Text) (identifiers : List Text)

/-- A name becomes the identifier of the animation that it stands for, if there is one. -/
inductive NameBecomes : Text → Text → Prop
  | animation {name : Text} (h : qualify scope name ∈ identifiers) :
      NameBecomes name (qualify scope name)
  | other {name : Text} (h : qualify scope name ∉ identifiers) : NameBecomes name name

/-- In an entry of a list, the first word is a name. -/
inductive EntryBecomes : Text → Text → Prop
  | blank {entry : Text} (h : entry.words = []) : EntryBecomes entry entry
  | named {entry name printed : Text} {rest : List Text} (h : entry.words = name :: rest)
      (hname : NameBecomes scope identifiers name printed) :
      EntryBecomes entry ([' '].intercalate (printed :: rest))

/-- The values of two properties hold names; all others stay as they are. -/
inductive ValueBecomes : Text → Text → Text → Prop
  | list {value : Text} {entries : List Text}
      (h : List.Forall₂ (EntryBecomes scope identifiers) (value.splitOn ',') entries) :
      ValueBecomes "animation".toList value ([','].intercalate entries)
  | name {value printed : Text} (h : NameBecomes scope identifiers value printed) :
      ValueBecomes "animation-name".toList value printed
  | other {property value : Text} (hlist : property ≠ "animation".toList)
      (hname : property ≠ "animation-name".toList) : ValueBecomes property value value

end Animation

/-! ## The table -/

namespace Dictionary

/-- The table of a function on some keys. -/
def graph (f : Text → Text) (keys : List Text) : Dictionary :=
  ⟨keys.map fun key => (key, f key)⟩

/-- A key that is there already has its value already. -/
theorem insert_graph (f : Text → Text) (keys : List Text) (key : Text) :
    (graph f keys).insert key (f key) = graph f (if key ∈ keys then keys else keys ++ [key]) := by
  simp only [graph, insert, mk.injEq]
  induction keys with
  | nil => rfl
  | cons first rest ih =>
    by_cases hfirst : first = key
    · simp [insertEntry, hfirst]
    · rw [List.map_cons, insertEntry, if_neg hfirst, ih]
      by_cases hrest : key ∈ rest
      · simp [hrest]
      · simp [hrest, Ne.symm hfirst]

/-- Filling in the values of a function lists each key where it came first. -/
theorem ofList_graph (f : Text → Text) (keys : List Text) :
    ofList (keys.map fun key => (key, f key)) = graph f keys.eraseDups := by
  induction keys using List.reverseRecOn with
  | nil => rfl
  | append_singleton keys key ih =>
    have hinsert : ofList ((keys ++ [key]).map fun key => (key, f key)) =
        (ofList (keys.map fun key => (key, f key))).insert key (f key) := by
      rw [List.map_append, ofList, update_append]
      rfl
    rw [hinsert, ih, insert_graph, List.eraseDups_append]
    by_cases hkey : key ∈ keys
    · simp [hkey, List.removeAll]
    · simp [hkey, List.removeAll, List.eraseDups_cons]

theorem rename_graph (f : Text → Text) (keys : List Text) (key : Text) :
    (graph f keys).rename key = if key ∈ keys then f key else key := by
  simp only [rename, get?, graph]
  induction keys with
  | nil => rfl
  | cons first rest ih =>
    by_cases hfirst : key = first
    · simp [hfirst]
    · simp only [List.map_cons, List.lookup_cons, beq_eq_false_iff_ne.2 hfirst, List.mem_cons,
        hfirst, false_or]
      exact ih

end Dictionary

theorem qualify_injective (scope : Text) : Function.Injective (qualify scope) := by
  intro a b h
  simpa [qualify] using h

namespace Content

/-- The animations of a body are those that it names, in the same order. -/
theorem identifiers_rules (scope : Text) (c : Content) :
    (Rule.walkAll (c.rules scope)).filterMap Rule.identifier? = c.names.map (qualify scope) := by
  induction c with
  | nil => rfl
  | declaration property value rest ih => exact ih
  | block head inner rest ihinner ihrest =>
    cases head with
    | selector part => simp [rules, names, ihrest]
    | keyframes name => simp [rules, names, Rule.walkAll, Rule.walk, ihrest]
    | group type query =>
      simp [rules, names, own, Rule.walkAll, Rule.walk, List.filterMap_cons, ihinner, ihrest]

theorem identifiers_tree (scope : Text) (c : Content) :
    (c.tree scope).identifiers = c.names.map (qualify scope) := by
  simp [RuleTree.identifiers, RuleTree.walk, tree, own, identifiers_rules]

theorem keyframes_tree (scope : Text) (c : Content) :
    (c.tree scope).keyframes = .graph (qualify scope) c.names.eraseDups :=
  Dictionary.ofList_graph (qualify scope) c.names

end Content

/-! ## The references -/

namespace Animation

variable (scope : Text) (names : List Text)

theorem nameBecomes_rename (name : Text) :
    NameBecomes scope (names.map (qualify scope)) name
      ((Dictionary.graph (qualify scope) names.eraseDups).rename name) := by
  have hiff : qualify scope name ∈ names.map (qualify scope) ↔ name ∈ names :=
    List.mem_map_of_injective (qualify_injective scope)
  rw [Dictionary.rename_graph]
  split
  · next hname => exact .animation (hiff.2 (List.mem_eraseDups.1 hname))
  · next hname => exact .other fun h => hname (List.mem_eraseDups.2 (hiff.1 h))

theorem entryBecomes_renameEntry (entry : Text) :
    EntryBecomes scope (names.map (qualify scope)) entry
      (renameEntry (.graph (qualify scope) names.eraseDups) entry) := by
  unfold renameEntry
  split
  · next hwords => exact .blank hwords
  · next name rest hwords => exact .named hwords (nameBecomes_rename scope names name)

theorem valueBecomes_renameValue (property value : Text) :
    ValueBecomes scope (names.map (qualify scope)) property value
      (renameValue (.graph (qualify scope) names.eraseDups) property value) := by
  unfold renameValue
  split
  · next hproperty =>
    subst hproperty
    refine .list (List.forall₂_map_right_iff.2 (List.forall₂_same.2 fun entry _ => ?_))
    exact entryBecomes_renameEntry scope names entry
  split
  · next hproperty =>
    subst hproperty
    exact .name (nameBecomes_rename scope names value)
  · next hlist hname => exact .other hlist hname

end Animation

/-- A block of declarations is printed as some style rule. -/
theorem RuleSet.text_eq_styleRule (names : Dictionary) (block : RuleSet) :
    block.text names = StyleRule.text ⟨block.selector, block.declarations.entries.map
      fun entry => (entry.1, Animation.renameValue names entry.1 entry.2)⟩ := by
  simp [RuleSet.text, StyleRule.text, Dictionary.declarationText, List.flatMap_map]

/-- The table of a source that is read lists the names of the animations that its rule tree holds at
any depth, each with its qualified form, in the order in which the animations come first. The rules
are printed with all references resolved: a name that an animation has becomes its identifier, and
an animation with that identifier is printed too; every other name stays as it is. -/
theorem keyframes_resolved {scope source : Text} {tree : RuleTree}
    (h : parse scope source = .ok tree) :
    (∃ names : List Text, tree.identifiers = names.map (qualify scope) ∧
      tree.keyframes.entries = names.eraseDups.map fun name => (name, qualify scope name)) ∧
    (∀ identifier ∈ tree.identifiers, ∃ steps : List RuleSet,
      tree.Prints (Rule.text tree.keyframes (.keyframes identifier steps))) ∧
    ∀ block ∈ tree.blocks, ∃ printed : StyleRule, tree.Prints printed.text ∧
      printed.selector = block.selector ∧
      List.Forall₂ (fun entry entry' => entry'.1 = entry.1 ∧
          Animation.ValueBecomes scope tree.identifiers entry.1 entry.2 entry'.2)
        block.declarations.entries printed.declarations := by
  obtain ⟨c, hc⟩ := exists_says_of_parse h
  obtain rfl := Except.ok.inj (h.symm.trans hc.parse_eq)
  have hidentifiers := c.identifiers_tree scope
  have hkeyframes := c.keyframes_tree scope
  refine ⟨⟨c.names, hidentifiers, by rw [hkeyframes]; rfl⟩,
    fun identifier => RuleTree.exists_prints_of_mem_identifiers, fun block hblock => ?_⟩
  refine ⟨_, RuleSet.text_eq_styleRule _ block ▸ RuleTree.prints_of_mem_blocks hblock, rfl, ?_⟩
  refine List.forall₂_map_right_iff.2 (List.forall₂_same.2 fun entry _ => ⟨rfl, ?_⟩)
  rw [hidentifiers, hkeyframes]
  exact Animation.valueBecomes_renameValue scope c.names entry.1 entry.2

theorem keyframes_resolved_later :
    ∃ tree, parse ['k'] "a{animation:m 1s,n}@media q{@keyframes m{}}@keyframes m{}".toList =
        .ok tree ∧ tree.keyframes.entries = [(['m'], "k-m".toList)] ∧
      ∃ printed : StyleRule, tree.Prints printed.text ∧ printed.selector = ".k a".toList ∧
        ∃ value, printed.declarations = [("animation".toList, value)] ∧
          Animation.ValueBecomes ['k'] ["k-m".toList, "k-m".toList] "animation".toList
            "m 1s,n".toList value := by
  have h : parse ['k'] "a{animation:m 1s,n}@media q{@keyframes m{}}@keyframes m{}".toList = .ok
      ⟨[.ruleSet ⟨".k a".toList, ⟨[("animation".toList, "m 1s,n".toList)]⟩⟩,
        .group .media ['q'] [.keyframes "k-m".toList []], .keyframes "k-m".toList []],
        ⟨[(['m'], "k-m".toList)]⟩⟩ := by decide +kernel
  obtain ⟨-, -, hblocks⟩ := keyframes_resolved h
  obtain ⟨⟨selector, declarations⟩, hprints, hselector, hvalues⟩ :=
    hblocks _ (List.mem_cons_self ..)
  obtain ⟨⟨property, value⟩, rfl, rfl, hvalue⟩ : ∃ entry, declarations = [entry] ∧
      entry.1 = "animation".toList ∧ Animation.ValueBecomes ['k'] ["k-m".toList, "k-m".toList]
        "animation".toList "m 1s,n".toList entry.2 := by
    obtain _ | ⟨⟨hproperty, hvalue⟩, ⟨⟩⟩ := hvalues
    exact ⟨_, rfl, hproperty, hvalue⟩
  exact ⟨_, h, rfl, _, hprints, hselector, value, rfl, hvalue⟩

end ScopedStyles
