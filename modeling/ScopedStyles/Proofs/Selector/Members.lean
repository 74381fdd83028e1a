import ScopedStyles.Proofs.Grammar.WellFormed

/-!
# Lists of selectors

A selector may be a list, whose members stand between commas. A comma in brackets or in a quoted
string is part of a member. The class of a scope is put in front of a selector as a whole, so in a
list it comes to stand in front of the first member alone; the other members apply wherever they are
written to apply.

## Main definitions

* `Selector.members` — the members of a list.
* `Selector.IsRooted` — a member applies to a scope's elements and what is below them only.
* `RuleTree.ruleSets` — the rule sets of a tree at any depth.

## Main statements

* `Selector.members_attach` — attaching a selector to a scope's class changes its first member.
* `isRooted_iff` — which rule sets of a source are confined to its scope.
-/

namespace ScopedStyles

/-! ## Members -/

/-- What is open at a place in a selector. -/
structure Nesting where
  /-- The number of open brackets. -/
  depth : Nat := 0
  /-- The mark of the open string. -/
  quote : Option Char := none
  /-- Whether the next character of the string is taken as it is. -/
  escaped : Bool := false
  deriving DecidableEq

namespace Nesting

/-- What is open after a character. -/
def read (n : Nesting) (c : Char) : Nesting :=
  match n.quote with
  | some mark =>
    if n.escaped then { n with escaped := false }
    else if c = '\\' then { n with escaped := true }
    else if c = mark then { n with quote := none }
    else n
  | none =>
    if c = '"' ∨ c = '\'' then { n with quote := some c }
    else if c = '(' ∨ c = '[' then { n with depth := n.depth + 1 }
    else if c = ')' ∨ c = ']' then { n with depth := n.depth - 1 }
    else n

/-- Whether a character ends a member. -/
def isCut (n : Nesting) (c : Char) : Bool :=
  c = ',' && n.depth = 0 && n.quote.isNone

end Nesting

namespace Selector

/-- Cuts a text at the commas outside brackets and strings. -/
def cut (n : Nesting) : Text → List Text
  | [] => [[]]
  | c :: t => if n.isCut c then [] :: cut n t else (cut (n.read c) t).modifyHead (c :: ·)

/-- The members of a list of selectors. -/
def members (selector : Text) : List Text :=
  (cut {} selector).map Text.trim

/-- A member starts with a scope's class, which ends there. -/
def IsRooted (scope member : Text) : Prop :=
  ∃ rest, member = ofScope scope ++ rest ∧ ∀ c ∈ rest.head?, c = ' ' ∨ c = ':'

theorem IsRooted.isPrefix {scope member : Text} (h : IsRooted scope member) :
    ofScope scope <+: member := by
  obtain ⟨rest, rfl, -⟩ := h
  exact List.prefix_append _ _

/-- A character that neither ends a name nor opens or closes anything, as the letters, the digits,
the hyphen and the underscore are. -/
structure IsNameChar (c : Char) : Prop where
  not_blank : Text.isBlank c = false
  not_special : c ∉ [',', '(', ')', '[', ']', '"', '\'']

theorem isNameChar_of_isAlphanum {c : Char} (h : c.isAlphanum = true ∨ c = '-' ∨ c = '_') :
    IsNameChar c := by
  rcases h with h | rfl | rfl
  · have hrange : ((65 ≤ c.toNat ∧ c.toNat ≤ 90) ∨ (97 ≤ c.toNat ∧ c.toNat ≤ 122)) ∨
        (48 ≤ c.toNat ∧ c.toNat ≤ 57) := by
      delta Char.isAlphanum Char.isAlpha Char.isUpper Char.isLower Char.isDigit at h
      simpa [UInt32.le_iff_toNat_le] using h
    constructor
    · have hblank : ∀ range ∈ Text.blankRanges, ¬ (range.1 ≤ c.toNat ∧ c.toNat ≤ range.2) := by
        simp only [Text.blankRanges, List.forall_mem_cons, List.not_mem_nil, false_imp_iff,
          implies_true, and_true]
        omega
      simpa [Text.isBlank, ← not_and, -not_and] using hblank
    · intro hmem
      simp only [List.mem_cons, List.not_mem_nil, or_false] at hmem
      rcases hmem with rfl | rfl | rfl | rfl | rfl | rfl | rfl <;> simp at hrange
  · exact ⟨by decide, by decide⟩
  · exact ⟨by decide, by decide⟩

theorem cut_ne_nil (n : Nesting) (t : Text) : cut n t ≠ [] := by
  cases t with
  | nil => simp [cut]
  | cons c t =>
    rw [cut]
    split
    · simp
    · cases hcut : cut (n.read c) t with
      | nil => exact absurd hcut (cut_ne_nil _ t)
      | cons first rest => simp

/-- Characters that open and close nothing stay with the first member. -/
theorem cut_append {n : Nesting} {a : Text} (ha : ∀ c ∈ a, n.isCut c = false ∧ n.read c = n)
    (t : Text) : cut n (a ++ t) = (cut n t).modifyHead (a ++ ·) := by
  induction a with
  | nil =>
    obtain ⟨first, rest, hcut⟩ := List.exists_cons_of_ne_nil (cut_ne_nil n t)
    simp [hcut]
  | cons c a ih =>
    obtain ⟨⟨hcomma, hread⟩, ha⟩ := List.forall_mem_cons.1 ha
    obtain ⟨first, rest, hcut⟩ := List.exists_cons_of_ne_nil (cut_ne_nil n t)
    simp [cut, hcomma, hread, ih ha, hcut]

/-- The first member starts as the list does, unless the list starts with a comma. -/
theorem head?_of_cut_eq_cons {n : Nesting} {t first : Text} {rest : List Text}
    (h : cut n t = first :: rest) : first.head? = t.head? ∨ first = [] ∧ t.head? = some ',' := by
  cases t with
  | nil =>
    obtain ⟨rfl, -⟩ := List.cons.inj h
    exact .inl rfl
  | cons c t =>
    rw [cut] at h
    split at h
    · next hcut =>
      obtain ⟨rfl, -⟩ := List.cons.inj h
      simp only [Nesting.isCut, Bool.and_eq_true, decide_eq_true_eq] at hcut
      exact .inr ⟨rfl, by simp [hcut]⟩
    · obtain ⟨first', rest', hcut⟩ := List.exists_cons_of_ne_nil (cut_ne_nil (n.read c) t)
      rw [hcut, List.modifyHead_cons] at h
      obtain ⟨rfl, -⟩ := List.cons.inj h
      exact .inl rfl

theorem read_of_isNameChar {c : Char} (h : IsNameChar c ∨ c = ' ' ∨ c = '.') :
    Nesting.isCut {} c = false ∧ Nesting.read {} c = {} := by
  have hspecial : c ∉ [',', '(', ')', '[', ']', '"', '\''] := by
    rcases h with h | rfl | rfl
    · exact h.not_special
    · decide
    · decide
  simp only [List.mem_cons, List.not_mem_nil, or_false, not_or] at hspecial
  simp [Nesting.isCut, Nesting.read, hspecial]

/-! ## Attaching to a scope's class -/

theorem attach_attach {part : Text} (h : part ≠ []) (outer next : Text) :
    attach (attach outer part) next = attach outer (attach part next) := by
  obtain ⟨c, rest, rfl⟩ := List.exists_cons_of_ne_nil h
  unfold attach
  split <;> split <;> simp_all

/-- What is put together from the outside inwards can be put together below the outermost part
first. -/
theorem foldl_attach {path : List Text} {written : Text} (hjoin : join? path = some written)
    (hne : ∀ part ∈ path, part ≠ []) (outer : Text) :
    path.foldl attach outer = attach outer written := by
  obtain _ | ⟨first, rest⟩ := path
  · simp [join?] at hjoin
  obtain rfl := Option.some.inj hjoin
  obtain ⟨hfirst, hrest⟩ := List.forall_mem_cons.1 hne
  rw [List.foldl_cons]
  clear hjoin hne
  induction rest generalizing first with
  | nil => rfl
  | cons next rest ih =>
    obtain ⟨-, hrest⟩ := List.forall_mem_cons.1 hrest
    have hattach : attach first next ≠ [] := fun hnil =>
      hfirst (List.prefix_nil.1 (hnil ▸ isPrefix_attach first next))
    rw [List.foldl_cons, List.foldl_cons, attach_attach hfirst]
    exact ih _ hattach hrest

/-- A written list starts with no blank. -/
theorem head?_of_join? {headers path : List Text} {written : Text}
    (hjoin : join? path = some written) (hpath : ∀ part ∈ path, IsSelector headers part) :
    ∀ c ∈ written.head?, Text.isBlank c = false := by
  obtain _ | ⟨first, rest⟩ := path
  · simp [join?] at hjoin
  obtain rfl := Option.some.inj hjoin
  obtain ⟨hfirst, -⟩ := List.forall_mem_cons.1 hpath
  obtain ⟨c, tail, hcons⟩ := List.exists_cons_of_ne_nil hfirst.ne_nil
  obtain ⟨more, hmore⟩ := isPrefix_foldl_attach first rest
  rw [← hmore, hcons]
  simpa [hcons] using hfirst.part.trimmed.head c

variable {scope : Text}

theorem blank_ofScope (hscope : ∀ c ∈ scope, IsNameChar c) :
    ∀ c ∈ ofScope scope, Text.isBlank c = false :=
  List.forall_mem_cons.2 ⟨by decide, fun c hc => (hscope c hc).not_blank⟩

theorem read_of_mem_ofScope (hscope : ∀ c ∈ scope, IsNameChar c) :
    ∀ c ∈ ofScope scope, Nesting.isCut {} c = false ∧ Nesting.read {} c = {} :=
  List.forall_mem_cons.2 ⟨read_of_isNameChar (.inr (.inr rfl)),
    fun c hc => read_of_isNameChar (.inl (hscope c hc))⟩

theorem trimmed_ofScope (hscope : ∀ c ∈ scope, IsNameChar c) : (ofScope scope).Trimmed :=
  ⟨fun c hc => blank_ofScope hscope c (List.mem_of_mem_head? hc),
    fun c hc => blank_ofScope hscope c (List.mem_of_mem_getLast? hc)⟩

/-- A scope's class is a list with one member. -/
theorem members_ofScope (hscope : ∀ c ∈ scope, IsNameChar c) :
    members (ofScope scope) = [ofScope scope] := by
  have hcut := cut_append (read_of_mem_ofScope hscope) []
  rw [List.append_nil] at hcut
  simp [members, hcut, cut, Text.trim_eq_self (trimmed_ofScope hscope)]

theorem isRooted_attach {member : Text} (h : member.Trimmed)
    (hscope : ∀ c ∈ scope, IsNameChar c) :
    IsRooted scope (Text.trim (attach (ofScope scope) member)) := by
  have htrimmed := trimmed_ofScope hscope
  obtain _ | ⟨c, rest⟩ := member
  · refine ⟨[], ?_, by simp⟩
    have htrim := Text.trim_eq_of_blank (a := []) (b := [' ']) (by simp) htrimmed
      (List.forall_mem_singleton.2 rfl)
    simpa [attach] using htrim
  · have happend : ∀ t : Text, (ofScope scope ++ (t ++ c :: rest)).Trimmed := fun t =>
      ⟨fun d hd => htrimmed.head d hd, fun d hd => h.last d (by simpa using hd)⟩
    unfold attach
    split
    · next hcolon =>
      refine ⟨c :: rest, Text.trim_eq_self (happend []), fun d hd => .inr ?_⟩
      exact Option.some.inj (hd.symm.trans hcolon)
    · exact ⟨' ' :: c :: rest, Text.trim_eq_self (happend [' ']), by simp⟩

/-- Blanks after a part make no difference once it is attached and the whole is trimmed. -/
theorem trim_attach_trim {part : Text} (h : ∀ c ∈ part.head?, Text.isBlank c = false)
    (outer : Text) : Text.trim (attach outer part.trim) = Text.trim (attach outer part) := by
  obtain ⟨a, b, hpart, ha, hb⟩ := Text.exists_eq_trim part
  obtain rfl : a = [] := by
    cases a with
    | nil => rfl
    | cons c a =>
      have hc := h c (by rw [hpart]; rfl)
      simp [ha c List.mem_cons_self] at hc
  rw [List.nil_append] at hpart
  cases htrim : part.trim with
  | nil =>
    rw [htrim, List.nil_append] at hpart
    cases b with
    | nil => rw [hpart]
    | cons c b =>
      have hc := h c (by rw [hpart]; rfl)
      simp [hb c List.mem_cons_self] at hc
  | cons c rest =>
    rw [htrim] at hpart
    have hattach : attach outer part = attach outer (c :: rest) ++ b := by
      rw [hpart]
      by_cases hcolon : c = ':'
      · simp [attach, hcolon]
      · simp [attach, hcolon]
    rw [hattach]
    simpa using (Text.trim_append_of_blank (a := []) (by simp) hb (attach outer (c :: rest))).symm

/-- Attaching a list to a scope's class attaches its first member and leaves the others as they
are. -/
theorem members_attach (hscope : ∀ c ∈ scope, IsNameChar c) {written : Text}
    (hwritten : ∀ c ∈ written.head?, Text.isBlank c = false) :
    ∃ first others, members written = first :: others ∧
      members (attach (ofScope scope) written) =
        Text.trim (attach (ofScope scope) first) :: others := by
  obtain ⟨first, rest, hcut⟩ := List.exists_cons_of_ne_nil (cut_ne_nil {} written)
  have hhead := head?_of_cut_eq_cons hcut
  have hfirst : ∀ c ∈ first.head?, Text.isBlank c = false := by
    rcases hhead with hhead | ⟨rfl, -⟩
    · rwa [hhead]
    · simp
  have hcolon : first.head? = some ':' ↔ written.head? = some ':' := by
    rcases hhead with hhead | ⟨rfl, hcomma⟩
    · rw [hhead]
    · simp [hcomma]
  have hclass := read_of_mem_ofScope hscope
  have hspace : ∀ c ∈ ofScope scope ++ [' '], Nesting.isCut {} c = false ∧ Nesting.read {} c = {} :=
    List.forall_mem_append.2 ⟨hclass, by simpa using read_of_isNameChar (.inr (.inl rfl))⟩
  have hattach : cut {} (attach (ofScope scope) written) =
      attach (ofScope scope) first :: rest := by
    by_cases h : written.head? = some ':'
    · rw [attach, if_pos h, attach, if_pos (hcolon.2 h), cut_append hclass, hcut,
        List.modifyHead_cons]
    · rw [attach, if_neg h, attach, if_neg (mt hcolon.1 h), ← List.singleton_append,
        ← List.append_assoc, cut_append hspace, hcut, List.modifyHead_cons, List.append_assoc,
        List.singleton_append]
  refine ⟨first.trim, rest.map Text.trim, by simp [members, hcut], ?_⟩
  rw [members, hattach, List.map_cons, trim_attach_trim hfirst]

/-- A list that is attached to a scope's class is confined to the scope exactly when all its members
but the first are. -/
theorem isRooted_members_attach (hscope : ∀ c ∈ scope, IsNameChar c) {written : Text}
    (hwritten : ∀ c ∈ written.head?, Text.isBlank c = false) :
    (∀ member ∈ (members (attach (ofScope scope) written)).head?, IsRooted scope member) ∧
      ((∀ member ∈ members (attach (ofScope scope) written), IsRooted scope member) ↔
        ∀ member ∈ (members written).tail, IsRooted scope member) := by
  obtain ⟨first, others, hmembers, hattach⟩ := members_attach hscope hwritten
  have htrimmed : first.Trimmed := by
    have hmem : first ∈ members written := hmembers ▸ List.mem_cons_self
    obtain ⟨raw, -, rfl⟩ := List.mem_map.1 hmem
    exact Text.trimmed_trim raw
  have hfirst := isRooted_attach htrimmed hscope
  rw [hattach, hmembers, List.tail_cons, List.forall_mem_cons, List.head?_cons]
  refine ⟨fun member hmember => ?_, fun h => h.2, fun h => ⟨hfirst, h⟩⟩
  rwa [← Option.mem_some_iff.1 hmember]

end Selector

/-! ## Rule trees -/

mutual

/-- The rule sets in a rule, at any depth. -/
def Rule.ruleSets : Rule → List RuleSet
  | .ruleSet rule => [rule]
  | .keyframes _ _ => []
  | .group _ _ rules => Rule.allRuleSets rules

/-- The rule sets in some rules, at any depth. -/
def Rule.allRuleSets : List Rule → List RuleSet
  | [] => []
  | rule :: rules => rule.ruleSets ++ Rule.allRuleSets rules

end

/-- The rule sets of a tree, at any depth. -/
def RuleTree.ruleSets (tree : RuleTree) : List RuleSet :=
  Rule.allRuleSets tree.rules

theorem Rule.exists_mem_ruleSets {rules : List Rule} {rule : RuleSet}
    (h : rule ∈ Rule.allRuleSets rules) : ∃ r ∈ rules, rule ∈ r.ruleSets := by
  induction rules with
  | nil => simp [Rule.allRuleSets] at h
  | cons r rules ih =>
    rcases List.mem_append.1 h with h | h
    · exact ⟨r, List.mem_cons_self, h⟩
    · obtain ⟨r', hr', h⟩ := ih h
      exact ⟨r', List.mem_cons_of_mem r hr', h⟩

theorem Rule.WellFormed.exists_path {scope : Text} {headers : List Text} {r : Rule}
    (h : r.WellFormed scope headers) {rule : RuleSet} (hrule : rule ∈ r.ruleSets) :
    ∃ path : List Text, (∀ part ∈ path, IsSelector headers part) ∧
      rule.selector = path.foldl Selector.attach (Selector.ofScope scope) := by
  induction h with
  | @ruleSet own path hselector hpath _ =>
    obtain rfl := List.mem_singleton.1 hrule
    exact ⟨path, hpath, hselector⟩
  | keyframes _ _ _ => simp [Rule.ruleSets] at hrule
  | group _ _ ih =>
    obtain ⟨r, hr, hrule⟩ := Rule.exists_mem_ruleSets hrule
    exact ih r hr hrule

/-- The selector of a rule set is put together from the class of the scope and some selectors that
the source has written. Its first member is confined to the scope. Its other members are those of
the list that the written selectors join to, so all are confined exactly when these are. -/
theorem isRooted_iff {scope source : Text} {tree : RuleTree} {rule : RuleSet}
    (hscope : ∀ c ∈ scope, Selector.IsNameChar c) (h : parse scope source = .ok tree)
    (hrule : rule ∈ tree.ruleSets) :
    ∃ path : List Text, (∀ part ∈ path, IsSelector (Source.headers source) part) ∧
      Selector.join? (Selector.ofScope scope :: path) = some rule.selector ∧
      (∀ member ∈ (Selector.members rule.selector).head?, Selector.IsRooted scope member) ∧
      ((∀ member ∈ Selector.members rule.selector, Selector.IsRooted scope member) ↔
        ∀ written ∈ Selector.join? path, ∀ member ∈ (Selector.members written).tail,
          Selector.IsRooted scope member) := by
  obtain ⟨r, hr, hrule⟩ := Rule.exists_mem_ruleSets hrule
  obtain ⟨path, hpath, hselector⟩ := ((wellFormed_of_parse h).rules r hr).exists_path hrule
  refine ⟨path, hpath, by rw [hselector, Selector.join?], ?_⟩
  cases hjoin : Selector.join? path with
  | none =>
    have hmembers : Selector.members rule.selector = [Selector.ofScope scope] := by
      cases path with
      | nil => rw [hselector, List.foldl_nil, Selector.members_ofScope hscope]
      | cons part path => simp [Selector.join?] at hjoin
    have hrooted : Selector.IsRooted scope (Selector.ofScope scope) := ⟨[], by simp⟩
    simpa [hmembers] using hrooted
  | some written =>
    have hattach := Selector.foldl_attach hjoin (fun part hpart => (hpath part hpart).ne_nil)
      (Selector.ofScope scope)
    rw [hselector, hattach]
    simpa using Selector.isRooted_members_attach hscope (Selector.head?_of_join? hjoin hpath)

theorem parse_list :
    parse ['k'] "a, b{c:d}".toList =
      .ok ⟨[.ruleSet ⟨".k a, b".toList, ⟨[(['c'], ['d'])]⟩⟩], ∅⟩ := by
  decide +kernel

theorem isRooted_iff_list :
    parse ['k'] "a, b{c:d}".toList =
        .ok ⟨[.ruleSet ⟨".k a, b".toList, ⟨[(['c'], ['d'])]⟩⟩], ∅⟩ ∧
      Selector.members ".k a, b".toList = [".k a".toList, ['b']] ∧
      Selector.IsRooted ['k'] ".k a".toList ∧ ¬ Selector.IsRooted ['k'] ['b'] := by
  have hmembers : Selector.members ".k a, b".toList = [".k a".toList, ['b']] := by decide +kernel
  have hscope : ∀ c ∈ ['k'], Selector.IsNameChar c :=
    List.forall_mem_singleton.2 (Selector.isNameChar_of_isAlphanum (.inl (by decide)))
  obtain ⟨-, -, -, hfirst, -⟩ := isRooted_iff hscope parse_list (List.mem_singleton.2 rfl)
  refine ⟨parse_list, hmembers, hfirst _ (by rw [hmembers]; rfl), fun h => ?_⟩
  exact absurd h.isPrefix (by decide)

/-- A scope's class does not confine the later members of a list. -/
theorem exists_member_not_isRooted :
    ∃ (tree : RuleTree) (rule : RuleSet) (member : Text),
      parse ['k'] "a, b{c:d}".toList = .ok tree ∧ rule ∈ tree.ruleSets ∧
        member ∈ Selector.members rule.selector ∧ ¬ Selector.IsRooted ['k'] member := by
  have hmember : ['b'] ∈ Selector.members ".k a, b".toList := by decide +kernel
  refine ⟨_, _, ['b'], parse_list, List.mem_singleton.2 rfl, hmember, fun h => ?_⟩
  exact absurd h.isPrefix (by decide)

end ScopedStyles
