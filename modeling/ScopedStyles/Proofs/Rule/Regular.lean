import ScopedStyles.Proofs.Grammar.WellFormed
import ScopedStyles.Proofs.Rule.Walk

/-!
# Regular rules

Every rule of a source, at whatever depth, is regular: it declares something, no property twice, and
its texts hold no delimiter, no line end, no tab and no run of spaces, and no blank at either end.
The selector of a rule set is that of the scope's class, alone or with a space or a colon after it.

## Main definitions

* `Text.Orderly` — what every text of a rule tree is like.
* `Rule.Regular` — what the texts and declarations of a single rule are like.

## Main statements

* `Selector.exists_rest` — what follows the scope's class in a selector.
* `regular_of_parse` — every rule of every source is regular.
-/

namespace ScopedStyles

/-- A text that holds no delimiter and whose only source blanks are single spaces. -/
structure Text.Orderly (t : Text) : Prop where
  chars : ∀ c ∈ t, c ∉ ['{', '}', ';', '\t', '\n', '\r']
  no_double_space : ¬ [' ', ' '] <:+: t

/-- Declarations, at least one and no two of the same property. -/
structure Dictionary.Regular (d : Dictionary) : Prop where
  ne_nil : d.entries ≠ []
  nodup : d.keys.Nodup
  texts : ∀ entry ∈ d.entries, ∀ t ∈ [entry.1, entry.2], t ≠ [] ∧ t.Orderly ∧ t.Trimmed
  no_colon : ∀ property ∈ d.keys, ':' ∉ property

/-- A selector begins with a scope's class, which ends there. -/
structure Selector.Regular (scope selector : Text) : Prop where
  exists_rest : ∃ rest, selector = ofScope scope ++ rest ∧ rest.Orderly ∧
    (∀ c ∈ rest.head?, c = ' ' ∨ c = ':') ∧ ∀ c ∈ rest.getLast?, Text.isBlank c = false

/-- A step of an animation is for some moments and declares something. -/
structure RuleSet.RegularStep (step : RuleSet) : Prop where
  ne_nil : step.selector ≠ []
  not_at : step.selector.head? ≠ some '@'
  orderly : step.selector.Orderly
  trimmed : step.selector.Trimmed
  declarations : step.declarations.Regular

/-- What is required of a rule itself. The rules in a group are rules of their own. -/
def Rule.Regular (scope : Text) : Rule → Prop
  | .ruleSet rule => Selector.Regular scope rule.selector ∧ rule.declarations.Regular
  | .keyframes identifier steps =>
    (∃ name : Text, identifier = qualify scope name ∧ name.Orderly ∧ name.Trimmed) ∧
      ∀ step ∈ steps, step.RegularStep
  | .group _ query _ => query.Orderly ∧ query.Trimmed

/-! ## Texts -/

theorem Text.Collapsed.orderly {t : Text} (h : t.Collapsed) : t.Orderly where
  chars c hc := by
    obtain ⟨hsemicolon, hopen, hclose⟩ := Delimiter.ofChar?_eq_none_iff.1 (h.plain c hc)
    have hblank : c.isWhitespace = true → c = ' ' := h.blanks c hc
    simp only [List.mem_cons, List.not_mem_nil, or_false]
    rintro (rfl | rfl | rfl | rfl | rfl | rfl)
    · exact hopen rfl
    · exact hclose rfl
    · exact hsemicolon rfl
    all_goals exact absurd (hblank rfl) (by decide)
  no_double_space hinfix := by
    have hspaced := h.spaced.infix hinfix
    simp at hspaced

theorem Text.Collapsed.append {a b : Text} (ha : a.Collapsed) (hb : b.Collapsed)
    (hlast : ∀ c ∈ a.getLast?, c ≠ ' ') : (a ++ b).Collapsed where
  plain := Text.plain_append_iff.2 ⟨ha.plain, hb.plain⟩
  blanks := List.forall_mem_append.2 ⟨ha.blanks, hb.blanks⟩
  spaced := by
    refine List.isChain_append.2 ⟨ha.spaced, hb.spaced, ?_⟩
    rintro c hc _ - ⟨hspace, -⟩
    exact hlast c hc hspace

theorem Text.IsPart.orderly {t : Text} (h : t.IsPart) : t.Orderly :=
  h.collapsed.orderly

/-! ## Selectors -/

namespace Selector

variable {headers : List Text}

/-- What is attached for a part: the part, with a space before it unless it starts with a colon. -/
theorem exists_attach {part : Text} (h : IsSelector headers part) :
    ∃ link : Text, (∀ outer, attach outer part = outer ++ link) ∧ link.Collapsed ∧
      (∀ c ∈ link.head?, c = ' ' ∨ c = ':') ∧ link ≠ [] ∧
      ∀ c ∈ link.getLast?, Text.isBlank c = false := by
  by_cases hcolon : part.head? = some ':'
  · refine ⟨part, fun outer => by simp [attach, hcolon], h.part.collapsed, ?_, h.ne_nil,
      h.part.trimmed.last⟩
    intro c hc
    right
    exact Option.some.inj (hc.symm.trans hcolon)
  · have hspace : Text.Collapsed [' '] := ⟨by decide, by simp, .singleton ' '⟩
    refine ⟨' ' :: part, fun outer => by simp [attach, hcolon], ?_, by simp, by simp, ?_⟩
    · constructor
      · exact Text.plain_cons_iff.2 ⟨rfl, h.part.collapsed.plain⟩
      · exact List.forall_mem_cons.2 ⟨fun _ => rfl, h.part.collapsed.blanks⟩
      · refine List.isChain_cons.2 ⟨?_, h.part.collapsed.spaced⟩
        rintro c hc ⟨-, rfl⟩
        exact absurd (h.part.trimmed.head ' ' hc) (by decide)
    · rw [List.getLast?_cons_of_ne_nil h.ne_nil]
      exact h.part.trimmed.last

/-- What follows the scope's class in a selector that has been put together from parts. -/
theorem exists_rest {parts : List Text} (h : ∀ part ∈ parts, IsSelector headers part)
    (outer : Text) :
    ∃ rest : Text, parts.foldl attach outer = outer ++ rest ∧ rest.Collapsed ∧
      (∀ c ∈ rest.head?, c = ' ' ∨ c = ':') ∧ ∀ c ∈ rest.getLast?, Text.isBlank c = false := by
  induction parts generalizing outer with
  | nil => exact ⟨[], by simp, ⟨by simp, by simp, .nil⟩, by simp, by simp⟩
  | cons part parts ih =>
    obtain ⟨hpart, hparts⟩ := List.forall_mem_cons.1 h
    obtain ⟨link, hattach, hlink, hhead, hne, hlast⟩ := exists_attach hpart
    obtain ⟨rest, hfold, hrest, -, hlast'⟩ := ih hparts (outer ++ link)
    refine ⟨link ++ rest, ?_, hlink.append hrest ?_, ?_, ?_⟩
    · rw [List.foldl_cons, hattach, hfold, List.append_assoc]
    · rintro c hc rfl
      exact absurd (hlast ' ' hc) (by decide)
    · rwa [List.head?_append_of_ne_nil _ hne]
    · intro c hc
      cases rest with
      | nil => exact hlast c (by simpa using hc)
      | cons d rest => exact hlast' c (by rwa [List.getLast?_append_of_ne_nil _ (by simp)] at hc)

end Selector

/-! ## Rules -/

variable {scope : Text} {headers : List Text}

theorem Dictionary.Declared.regular {d : Dictionary} (h : d.Declared) : d.Regular where
  ne_nil := h.ne_nil
  nodup := h.nodup
  texts entry hentry := by
    have hdeclaration := h.each entry hentry
    refine List.forall_mem_cons.2 ⟨?_, List.forall_mem_singleton.2 ?_⟩
    · exact ⟨hdeclaration.property_ne_nil, hdeclaration.property_part.orderly,
        hdeclaration.property_part.trimmed⟩
    · exact ⟨hdeclaration.value_ne_nil, hdeclaration.value_part.orderly,
        hdeclaration.value_part.trimmed⟩
  no_colon property hproperty := by
    obtain ⟨entry, hentry, rfl⟩ := List.mem_map.1 hproperty
    exact (h.each entry hentry).property_colon

theorem Rule.WellFormed.regular {rule : Rule} (h : rule.WellFormed scope headers) :
    rule.Regular scope := by
  cases h with
  | ruleSet hselector hparts h =>
    obtain ⟨rest, hrest, hcollapsed, hhead, hlast⟩ :=
      Selector.exists_rest hparts (Selector.ofScope scope)
    exact ⟨⟨rest, hselector.trans hrest, hcollapsed.orderly, hhead, hlast⟩, h.regular⟩
  | @keyframes name steps hname hselectors h =>
    refine ⟨⟨name, rfl, hname.orderly, hname.trimmed⟩, fun step hstep => ?_⟩
    have hselector := hselectors step hstep
    exact ⟨hselector.ne_nil, hselector.not_at, hselector.part.orderly, hselector.part.trimmed,
      (h step hstep).regular⟩
  | group hquery _ => exact ⟨hquery.orderly, hquery.trimmed⟩

/-- Every rule in a well-formed rule is well formed. -/
theorem Rule.WellFormed.of_mem_walk {rule r : Rule} (h : rule.WellFormed scope headers)
    (hr : r ∈ rule.walk) : r.WellFormed scope headers := by
  induction h with
  | ruleSet hselector hparts h =>
    obtain rfl := List.mem_singleton.1 hr
    exact .ruleSet hselector hparts h
  | keyframes hname hselectors h =>
    obtain rfl := List.mem_singleton.1 hr
    exact .keyframes hname hselectors h
  | group hquery hrules ih =>
    rcases List.mem_cons.1 hr with rfl | hr
    · exact .group hquery hrules
    · obtain ⟨inner, hinner, hr⟩ := Rule.mem_walkAll.1 hr
      exact ih inner hinner hr

/-- Every rule of a source is regular, at whatever depth it stands, and so is every name in the
table of animations. -/
theorem regular_of_parse {source : Text} {tree : RuleTree} (h : parse scope source = .ok tree) :
    (∀ rule ∈ tree.walk, rule.Regular scope) ∧
      ∀ name ∈ tree.keyframes.keys, name.Orderly ∧ name.Trimmed := by
  have htree := wellFormed_of_parse h
  constructor
  · intro rule hrule
    obtain ⟨top, htop, hrule⟩ := Rule.mem_walkAll.1 hrule
    exact ((htree.rules top htop).of_mem_walk hrule).regular
  · intro name hname
    obtain ⟨entry, hentry, rfl⟩ := List.mem_map.1 hname
    have hpart := (htree.keyframes entry hentry).1
    exact ⟨hpart.orderly, hpart.trimmed⟩

theorem regular_of_parse_nested :
    Rule.Regular ['k'] (.ruleSet ⟨".k a:hover b".toList, ⟨[(['c'], ['d'])]⟩⟩) ∧
      Rule.Regular ['k'] (.keyframes "k-m".toList [⟨"from".toList, ⟨[(['e'], ['f'])]⟩⟩]) := by
  have h : parse ['k'] "@media q{ a { :hover {b {c: d} } }@keyframes  m{from{e:f;}} }".toList =
      .ok ⟨[.group .media ['q'] [.ruleSet ⟨".k a:hover b".toList, ⟨[(['c'], ['d'])]⟩⟩,
          .keyframes "k-m".toList [⟨"from".toList, ⟨[(['e'], ['f'])]⟩⟩]]],
        ⟨[(['m'], "k-m".toList)]⟩⟩ := by decide +kernel
  obtain ⟨hrules, -⟩ := regular_of_parse h
  exact ⟨hrules _ (by decide), hrules _ (by decide)⟩

end ScopedStyles
