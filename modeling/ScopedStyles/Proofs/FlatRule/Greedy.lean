import ScopedStyles.Proofs.FlatRule.Layout
import ScopedStyles.Proofs.FlatRule.Reading

/-!
# Reading as far as may be

A part is read to as late a character as may be, so a selector, a query or a value takes the blanks
that the grammar could also leave outside. Nothing is lost by that: a part that is laid out in any
way is read as a part of its kind, and what is read is laid out.

## Main definitions

* `Expected.Allows` — which parts may stand where.

## Main statements

* `Expected.exists_part_of_spread` — a part that may stand where it stands is read as a part of its
  kind, however it is laid out.
* `Expected.part_text` — a part that is written as it is kept is read back.
* `Expected.spread_of_part` — what is read is laid out.
-/

namespace ScopedStyles

namespace Part

/-! ## Gaps -/

theorem skip_append {gap : Text} (hgap : gap.Ignored) (t : Text) : skip (gap ++ t) = skip t :=
  List.dropWhile_append_of_pos hgap

theorem skip_eq_nil_iff {t : Text} : skip t = [] ↔ t.Ignored :=
  List.dropWhile_eq_nil_iff

theorem exists_eq_append_skip (t : Text) : ∃ gap : Text, t = gap ++ skip t ∧ gap.Ignored :=
  ⟨t.takeWhile isIgnored, List.takeWhile_append_dropWhile.symm,
    List.all_eq_true.1 List.all_takeWhile⟩

/-! ## Laid out parts are read -/

theorem step_selector {selector : Text} (h : Terminal.selector.Matches selector) (after : Text) :
    step (selector ++ after) = .ok (.style (selector ++ after)) := by
  obtain ⟨c, rest, rfl, hfirst, -⟩ := Text.spelled_iff.1 h
  obtain ⟨hvisible, hat⟩ := Bool.and_eq_true_iff.1 hfirst
  exact step_cons (Terminal.isVisible_iff.1 hvisible).2 (by simpa using hat) _

theorem head_selector {selector : Text} (h : Terminal.selector.Matches selector) (after : Text) :
    head (selector ++ after) = .ok (.style (selector ++ after)) := by
  obtain ⟨c, rest, rfl, hfirst, -⟩ := Text.spelled_iff.1 h
  obtain ⟨hvisible, hat⟩ := Bool.and_eq_true_iff.1 hfirst
  exact head_cons (Terminal.isVisible_iff.1 hvisible).2 (by simpa using hat) _

/-- A name ends at the first blank, and behind it nothing may stand but what is ignored. -/
theorem name_eq {gap n u : Text} (hgap : gap.Ignored) (hne : n ≠ [])
    (hn : ∀ d ∈ n, Text.isBlank d = false) (hu : ∀ d ∈ u.head?, Text.isBlank d = true) :
    name (gap ++ (n ++ u)) =
      match skip u with
      | [] => .ok (.keyframes n)
      | unread => .error unread := by
  obtain ⟨c, rest, rfl⟩ := List.exists_cons_of_ne_nil hne
  have hpos : ∀ d ∈ c :: rest, (!Text.isBlank d) = true := by simpa using hn
  have hskip : skip (gap ++ (c :: rest ++ u)) = c :: rest ++ u := by
    rw [skip_append hgap]
    exact skip_cons (hn c List.mem_cons_self) _
  have hstop : u.takeWhile (!Text.isBlank ·) = [] ∧ u.dropWhile (!Text.isBlank ·) = u := by
    cases u with
    | nil => exact ⟨rfl, rfl⟩
    | cons d u => simp [hu d rfl]
  rw [name, hskip, List.takeWhile_append_of_pos hpos, List.dropWhile_append_of_pos hpos, hstop.1,
    hstop.2]
  cases skip u <;> simp

theorem name_append {gap after t : Text} (hgap : gap.Ignored) (hafter : after.Ignored)
    (h : Terminal.name.Matches t) : name (gap ++ (t ++ after)) = .ok (.keyframes t) := by
  obtain ⟨hne, hvisible⟩ := Text.spelled_self_iff.1 h
  have hname : ∀ d ∈ t, Text.isBlank d = false := fun d hd =>
    (Terminal.isVisible_iff.1 (hvisible d hd)).2
  have hblank : ∀ d ∈ after.head?, Text.isBlank d = true := fun d hd =>
    isBlank_of_isIgnored (hafter d (List.mem_of_mem_head? hd))
  rw [name_eq hgap hne hname hblank, skip_eq_nil_iff.2 hafter]

theorem query_append {gap t : Text} (hgap : gap.Ignored) (type : GroupType)
    (h : Terminal.query.Matches t) (after : Text) :
    query type (gap ++ (t ++ after)) = .ok (.group type (t ++ after)) := by
  obtain ⟨c, rest, rfl, hfirst, -⟩ := Text.spelled_iff.1 h
  have hc := (Terminal.isVisible_iff.1 hfirst).2
  rw [query, skip_append hgap, List.cons_append, skip_cons hc]
  simp [hc]

theorem declaration_property {gap property value : Text} (hgap : gap.Ignored)
    (h : Terminal.property.Matches property) (hvalue : value ≠ []) :
    declaration (property ++ (gap ++ ':' :: value)) = .ok (.declared (property ++ gap) value) := by
  obtain ⟨c, rest, rfl, hfirst, hrest⟩ := Text.spelled_iff.1 h
  simp only [Bool.and_eq_true, bne_iff_ne] at hfirst hrest
  obtain ⟨⟨hvisible, hat⟩, hcolon⟩ := hfirst
  have hproperty : ':' ∉ c :: rest ++ gap := by
    intro hmem
    rcases List.mem_append.1 hmem with hmem | hmem
    · rcases List.mem_cons.1 hmem with rfl | hmem
      · exact hcolon rfl
      · exact (hrest ':' hmem).2 rfl
    · exact absurd (hgap ':' hmem) (by decide)
  have hblank : ∀ d ∈ (c :: rest ++ gap).head?, Text.isBlank d = false := by
    simpa using (Terminal.isVisible_iff.1 hvisible).2
  rw [← List.append_assoc, declaration_append hblank (by simp) hproperty hvalue]
  simp [hat]

end Part

/-! ## Whatever is laid out is read -/

namespace Expected

/-- Which parts may stand where. -/
inductive Allows : Expected → Part → Prop
  | blank (expected : Expected) : Allows expected .blank
  | style (selector : Text) : Allows .rule (.style selector)
  | keyframes (name : Text) : Allows .rule (.keyframes name)
  | group (type : GroupType) (query : Text) : Allows .rule (.group type query)
  | step (name : Text) (steps : List StyleRule) (selector : Text) :
    Allows (.step name steps) (.style selector)
  | declared (rule : StyleRule) (animation : Option (Text × List StyleRule))
      (property value : Text) :
    Allows (.declaration rule animation) (.declared property value)

variable {expected : Expected} {part : Part} {t : Text}

/-- What is ignored in front of a part makes no difference to it. -/
theorem part_append {gap : Text} (hgap : gap.Ignored) (expected : Expected) (t : Text) :
    expected.part (gap ++ t) = expected.part t := by
  cases expected with
  | rule => simp only [part, Part.head, Part.step, Part.skip_append hgap]
  | step => simp only [part, Part.step, Part.skip_append hgap]
  | declaration => simp only [part, Part.declaration, Part.skip_append hgap]
  | nothing => simp only [part, Part.nothing, Part.skip_append hgap]

theorem part_ignored (expected : Expected) (ht : t.Ignored) : expected.part t = .ok .blank := by
  have h := part_append ht expected []
  rw [List.append_nil] at h
  rw [h]
  cases expected <;> rfl

/-- A part that may stand where it stands is read as a part of its kind, however it is laid out. -/
theorem exists_part_of_spread (hallows : expected.Allows part) (ht : Spread part.tokens t) :
    ∃ part', expected.part t = .ok part' ∧ part.Alike part' := by
  cases hallows with
  | blank => exact ⟨.blank, expected.part_ignored (spread_nil_iff.1 ht), .blank⟩
  | style selector =>
    obtain ⟨gap, after, rfl, hgap, hselector, -⟩ := spread_cons_iff.1 ht
    exact ⟨_, (part_append hgap _ _).trans (Part.head_selector hselector after), .style _ _⟩
  | keyframes name =>
    obtain ⟨gap, _, rfl, hgap, -, hrest⟩ := spread_cons_iff.1 ht
    obtain ⟨gap', after, rfl, hgap', hname, hafter⟩ := spread_cons_iff.1 hrest
    refine ⟨_, (part_append hgap _ _).trans ?_, .keyframes name name⟩
    exact (Part.head_keyframes _).trans
      (Part.name_append hgap' (spread_nil_iff.1 hafter) hname)
  | group type query =>
    obtain ⟨gap, _, rfl, hgap, -, hrest⟩ := spread_cons_iff.1 ht
    obtain ⟨gap', after, rfl, hgap', hquery, -⟩ := spread_cons_iff.1 hrest
    refine ⟨_, (part_append hgap _ _).trans ?_, .group type type query (query ++ after)⟩
    exact (Part.head_group type _).trans (Part.query_append hgap' type hquery after)
  | step name steps selector =>
    obtain ⟨gap, after, rfl, hgap, hselector, -⟩ := spread_cons_iff.1 ht
    exact ⟨_, (part_append hgap _ _).trans (Part.step_selector hselector after), .style _ _⟩
  | declared rule animation property value =>
    obtain ⟨gap, _, rfl, hgap, hproperty, hrest⟩ := spread_cons_iff.1 ht
    obtain ⟨gap', _, rfl, hgap', -, hrest⟩ := spread_cons_iff.1 hrest
    obtain ⟨before, after, rfl, -, hvalue, -⟩ := spread_cons_iff.1 hrest
    have hne : before ++ (value ++ after) ≠ [] := by
      simp [Text.Spelled.ne_nil hvalue]
    have hread := Part.declaration_property hgap' hproperty hne
    exact ⟨_, (part_append hgap _ _).trans hread, .declared _ _ _ _⟩

/-- A part that may stand where it stands is read back. -/
theorem part_text (hallows : expected.Allows part) (h : ∀ token ∈ part.tokens, token.IsValid) :
    expected.part part.text = .ok part := by
  have hspace : Text.Ignored [' '] := by
    simp [Text.Ignored, Part.isIgnored]
  cases hallows with
  | blank => exact expected.part_ignored Text.ignored_nil
  | style selector =>
    have hread := Part.head_selector (h ⟨.selector, selector⟩ (by simp [Part.tokens])) []
    rwa [List.append_nil] at hread
  | keyframes name =>
    have hread := Part.name_append hspace Text.ignored_nil (h ⟨.name, name⟩ (by simp [Part.tokens]))
    rw [List.append_nil] at hread
    exact (Part.head_keyframes _).trans hread
  | group type query =>
    have hread := Part.query_append hspace type (h ⟨.query, query⟩ (by simp [Part.tokens])) []
    rw [List.append_nil] at hread
    exact (Part.head_group type _).trans hread
  | step name steps selector =>
    have hread := Part.step_selector (h ⟨.selector, selector⟩ (by simp [Part.tokens])) []
    rwa [List.append_nil] at hread
  | declared rule animation property value =>
    have hvalue : Terminal.value.Matches value := h ⟨.value, value⟩ (by simp [Part.tokens])
    have hread := Part.declaration_property Text.ignored_nil
      (h ⟨.property, property⟩ (by simp [Part.tokens])) (Text.Spelled.ne_nil hvalue)
    rwa [List.append_nil] at hread

theorem Allows.of_alike {e : Expected} (h : expected.Allows part) (halike : expected.Alike e) :
    e.Allows part := by
  cases h with
  | blank => exact .blank e
  | style | keyframes | group | step =>
    cases halike
    constructor
  | declared => cases halike <;> constructor

end Expected

/-! ## Whatever is read is laid out -/

theorem Text.Plain.isInner {t : Text} (h : t.Plain) : ∀ c ∈ t, Terminal.isInner c = true :=
  fun c hc => Terminal.isInner_iff.2 (h c hc)

namespace Part

variable {part : Part} {t : Text}

theorem plain_skip (ht : t.Plain) : (skip t).Plain :=
  ht.of_subset (List.dropWhile_suffix _).subset

theorem plain_of_skip_eq {before after : Text} (ht : t.Plain) (h : before ++ after = skip t) :
    after.Plain :=
  (Text.plain_append_iff.1 (h ▸ plain_skip ht)).2

theorem spread_of_skip_eq_nil (h : skip t = []) : Spread [] t :=
  spread_nil_iff.2 (skip_eq_nil_iff.1 h)

/-- A text is laid out if it is without what is ignored in front of it. -/
theorem spread_of_skip {token : Token} {tokens : List Token} {rest : Text}
    (h : skip t = token.text ++ rest) (htoken : token.IsValid) (hrest : Spread tokens rest) :
    Spread (token :: tokens) t := by
  obtain ⟨gap, heq, hgap⟩ := exists_eq_append_skip t
  exact spread_cons_iff.2 ⟨gap, rest, h ▸ heq, hgap, htoken, hrest⟩

theorem spread_of_nothing (h : nothing t = .ok part) : Spread part.tokens t := by
  unfold nothing at h
  split at h
  · next hnil =>
    cases h
    exact spread_of_skip_eq_nil hnil
  · cases h

theorem spread_of_step (ht : t.Plain) (h : step t = .ok part) : Spread part.tokens t := by
  unfold step at h
  split at h
  · next hnil =>
    cases h
    exact spread_of_skip_eq_nil hnil
  · next c rest hskip =>
    split at h
    · cases h
    · next hfirst =>
      cases h
      rw [Bool.or_eq_true, not_or] at hfirst
      obtain ⟨hat, hblank⟩ := hfirst
      obtain ⟨hc, hrest⟩ := Text.plain_cons_iff.1 (hskip ▸ plain_skip ht)
      have hvisible : Terminal.isVisible c = true :=
        Terminal.isVisible_iff.2 ⟨hc, by simpa using hblank⟩
      have hselector : (⟨.selector, c :: rest⟩ : Token).IsValid :=
        ⟨by simpa [hvisible] using hat, Text.Plain.isInner hrest⟩
      exact spread_of_skip (by simpa using hskip) hselector (spread_nil_iff.2 Text.ignored_nil)

theorem spread_of_name (ht : t.Plain) (h : name t = .ok part) (hpart : part ≠ .incomplete) :
    ∃ n, part = .keyframes n ∧ Spread [⟨.name, n⟩] t := by
  unfold name at h
  split at h
  · split at h
    · cases h
      contradiction
    · cases h
  · next hne =>
    split at h
    · next hafter =>
      cases h
      have hname : (⟨.name, (skip t).takeWhile (!Text.isBlank ·)⟩ : Token).IsValid := by
        refine Text.spelled_self_iff.2 ⟨hne, fun c hc => Terminal.isVisible_iff.2 ⟨?_, ?_⟩⟩
        · exact plain_skip ht c ((List.takeWhile_prefix _).subset hc)
        · simpa using List.all_eq_true.1 List.all_takeWhile c hc
      exact ⟨_, rfl, spread_of_skip List.takeWhile_append_dropWhile.symm hname
        (spread_of_skip_eq_nil hafter)⟩
    · cases h

theorem spread_of_query {type : GroupType} (ht : t.Plain) (h : query type t = .ok part)
    (hpart : part ≠ .incomplete) : ∃ q, part = .group type q ∧ Spread [⟨.query, q⟩] t := by
  unfold query at h
  split at h
  · cases h
    contradiction
  · next c rest hskip =>
    split at h
    · cases h
    · next hblank =>
      cases h
      obtain ⟨hc, hrest⟩ := Text.plain_cons_iff.1 (hskip ▸ plain_skip ht)
      have hquery : (⟨.query, c :: rest⟩ : Token).IsValid :=
        ⟨Terminal.isVisible_iff.2 ⟨hc, by simpa using hblank⟩, Text.Plain.isInner hrest⟩
      refine ⟨_, rfl, spread_of_skip ?_ hquery (spread_nil_iff.2 Text.ignored_nil)⟩
      simpa using hskip

theorem spread_of_head (ht : t.Plain) (h : head t = .ok part) (hpart : part ≠ .incomplete) :
    Spread part.tokens t := by
  rcases head_cases t with ⟨rest, hskip, hread⟩ | ⟨type, rest, hskip, hread⟩ | hread
  · rw [hread] at h
    obtain ⟨n, rfl, hspread⟩ := spread_of_name (plain_of_skip_eq ht hskip.symm) h hpart
    exact spread_of_skip hskip rfl hspread
  · rw [hread] at h
    obtain ⟨q, rfl, hspread⟩ := spread_of_query (plain_of_skip_eq ht hskip.symm) h hpart
    exact spread_of_skip hskip ⟨type, rfl⟩ hspread
  · rw [hread] at h
    exact spread_of_step ht h

/-- A colon and the value behind it. -/
theorem spread_colon_value {value : Text} (hvalue : value ≠ []) (hplain : value.Plain) :
    Spread [.literal [':'], ⟨.value, value⟩] (':' :: value) := by
  have hvalid : (⟨.value, value⟩ : Token).IsValid :=
    Text.spelled_self_iff.2 ⟨hvalue, Text.Plain.isInner hplain⟩
  have hspread : Spread [⟨.value, value⟩] value :=
    spread_cons_iff.2 ⟨[], [], by simp, Text.ignored_nil, hvalid,
      spread_nil_iff.2 Text.ignored_nil⟩
  exact spread_cons_iff.2 ⟨[], value, rfl, Text.ignored_nil, rfl, hspread⟩

theorem spread_of_declaration (ht : t.Plain) (h : declaration t = .ok part)
    (hpart : part ≠ .incomplete) : Spread part.tokens t := by
  unfold declaration at h
  split at h
  · next hnil =>
    cases h
    exact spread_of_skip_eq_nil hnil
  · next c rest hskip =>
    split at h
    · cases h
    · next hfirst =>
      split at h
      · cases h
        contradiction
      · cases h
        contradiction
      · next property value hvalue hcut =>
        cases h
        obtain ⟨heq, hcolon⟩ := Text.cutAt?_eq_some_iff.1 hcut
        simp only [Bool.or_eq_true, decide_eq_true_eq, not_or, Bool.not_eq_true] at hfirst
        obtain ⟨⟨hat, hne⟩, hblank⟩ := hfirst
        have hplain : Text.Plain (property ++ ':' :: value) := heq ▸ hskip ▸ plain_skip ht
        obtain ⟨hproperty, hrest⟩ := Text.plain_append_iff.1 hplain
        -- The first character is no colon, so the property is not empty and starts with it.
        cases property with
        | nil => exact absurd (List.cons.inj heq).1 hne
        | cons d property =>
          obtain ⟨rfl, rfl⟩ := List.cons.inj heq
          obtain ⟨hc, hplain⟩ := Text.plain_cons_iff.1 hproperty
          have hvisible : Terminal.isVisible c = true := Terminal.isVisible_iff.2 ⟨hc, hblank⟩
          have hothers : ∀ d ∈ property, (Terminal.isInner d && d != ':') = true := by
            intro d hd
            have hd' : d ≠ ':' := fun h => hcolon (h ▸ List.mem_cons_of_mem c hd)
            simpa [hd'] using Text.Plain.isInner hplain d hd
          exact spread_of_skip hskip ⟨by simp [hvisible, hat, hne], hothers⟩
            (spread_colon_value hvalue (Text.plain_cons_iff.1 hrest).2)

end Part

/-- What is read is laid out. -/
theorem Expected.spread_of_part {expected : Expected} {part : Part} {t : Text} (ht : t.Plain)
    (h : expected.part t = .ok part) (hpart : part ≠ .incomplete) : Spread part.tokens t := by
  cases expected with
  | rule => exact Part.spread_of_head ht h hpart
  | step => exact Part.spread_of_step ht h
  | declaration => exact Part.spread_of_declaration ht h hpart
  | nothing => exact Part.spread_of_nothing h

end ScopedStyles
