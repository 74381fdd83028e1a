import ScopedStyles.Proofs.Grammar.Agreement
import ScopedStyles.Proofs.Source.Collapsed

/-!
# What the texts of a rule tree look like

The texts of a rule tree are cut out of chunks: they are trimmed and collapsed, and each stands
where the grammar has let it stand. Selectors of steps and the parts of other selectors are headers
of the source and no at-rules, properties hold no colon, and no rule set or step is without
declarations.

## Main definitions

* `Source.headers` — what the source has in front of its opening braces.
* `Rule.WellFormed`, `RuleTree.WellFormed` — what is known of rules and rule trees.

## Main statements

* `Derives.wellFormed` — a content whose pieces are parts is well formed.
* `wellFormed_of_parse` — the rule tree of every source is well formed.
-/

namespace ScopedStyles

/-- A trimmed and collapsed text. -/
structure Text.IsPart (t : Text) : Prop where
  trimmed : t.Trimmed
  collapsed : t.Collapsed

theorem Text.Collapsed.isPart_trim {t : Text} (h : t.Collapsed) : (Text.trim t).IsPart :=
  ⟨Text.trimmed_trim t, h.trim⟩

/-- What a source has in front of its opening braces. -/
def Source.headers (source : Text) : List Text :=
  ((pieces source).filter (·.delimiter = .openBrace)).map (·.text)

theorem Source.mem_headers {source : Text} {piece : Piece} (h : piece ∈ pieces source)
    (hbrace : piece.delimiter = .openBrace) : piece.text ∈ headers source :=
  List.mem_map_of_mem (List.mem_filter.2 ⟨h, by simpa using hbrace⟩)

/-- One of some headers that is a part and no at-rule. -/
structure IsSelector (headers : List Text) (t : Text) : Prop where
  part : t.IsPart
  ne_nil : t ≠ []
  not_at : t.head? ≠ some '@'
  written : t ∈ headers

/-- Two parts that can stand on the two sides of the colon of a declaration. -/
structure IsDeclaration (property value : Text) : Prop where
  property_part : property.IsPart
  property_ne_nil : property ≠ []
  property_colon : ':' ∉ property
  value_part : value.IsPart
  value_ne_nil : value ≠ []

variable {headers : List Text}

/-! ## Contents -/

/-- The texts of a head are parts. -/
def Head.WellFormed (headers : List Text) : Head → Prop
  | .selector text => IsSelector headers text
  | .keyframes name => name.IsPart
  | .group _ query => query.IsPart

/-- All texts in a content are what they stand for. -/
inductive Content.WellFormed (headers : List Text) : Content → Prop
  | nil : WellFormed headers .nil
  | declaration {property value : Text} {rest : Content} (h : IsDeclaration property value)
      (hrest : WellFormed headers rest) : WellFormed headers (.declaration property value rest)
  | block {head : Head} {inner rest : Content} (h : head.WellFormed headers)
      (hinner : WellFormed headers inner) (hrest : WellFormed headers rest) :
      WellFormed headers (.block head inner rest)

theorem Declares.isDeclaration {text property value : Text} (h : Declares text property value)
    (htext : text.IsPart) : IsDeclaration property value := by
  obtain ⟨⟨before, after, rfl, hcolon, rfl, rfl⟩, hproperty, hvalue⟩ := h
  have hbefore := htext.collapsed.of_infix (List.prefix_append before (':' :: after)).isInfix
  have hafter : after <:+: before ++ ':' :: after := ⟨before ++ [':'], [], by simp⟩
  exact {
    property_part := hbefore.isPart_trim
    property_ne_nil := hproperty
    property_colon := fun h => hcolon (Text.mem_of_mem_trim h)
    value_part := (htext.collapsed.of_infix hafter).isPart_trim
    value_ne_nil := hvalue }

theorem Heads.wellFormed {text : Text} {head : Head} (h : Heads text head) (htext : text.IsPart)
    (hwritten : text ∈ headers) : head.WellFormed headers := by
  cases h with
  | selector hne hat => exact ⟨htext, hne, hat, hwritten⟩
  | keyframes name =>
    exact (htext.collapsed.of_infix (List.suffix_append _ name).isInfix).isPart_trim
  | group type query =>
    exact (htext.collapsed.of_infix (List.suffix_append _ query).isInfix).isPart_trim

/-- A content whose pieces are parts is well formed. -/
theorem Derives.wellFormed {level : Level} {c : Content} {pieces : List Piece} {last : Text}
    (h : Derives level c pieces last) (hpieces : ∀ piece ∈ pieces, piece.text.IsPart)
    (hheaders : ∀ piece ∈ pieces, piece.delimiter = .openBrace → piece.text ∈ headers)
    (hlast : last.IsPart) : c.WellFormed headers := by
  induction h with
  | nil => exact .nil
  | last h => exact .declaration (h.isDeclaration hlast) .nil
  | declaration h _ ih =>
    rw [List.forall_mem_cons] at hpieces hheaders
    exact .declaration (h.isDeclaration hpieces.1) (ih hpieces.2 hheaders.2 hlast)
  | block h _ _ _ ihinner ihrest =>
    simp only [List.forall_mem_cons, List.forall_mem_append] at hpieces hheaders
    obtain ⟨hhead, hinner, hend, hrest⟩ := hpieces
    obtain ⟨hheader, hheadersInner, -, hheadersRest⟩ := hheaders
    exact .block (h.wellFormed hhead (hheader trivial)) (ihinner hinner hheadersInner hend)
      (ihrest hrest hheadersRest hlast)

theorem Source.Says.wellFormed {source : Text} {c : Content} (h : Source.Says source c) :
    c.WellFormed (Source.headers source) := by
  refine Derives.wellFormed h (fun piece hpiece => ?_) (fun _ => Source.mem_headers)
    (collapsed_remainder source).isPart_trim
  obtain ⟨chunk, hchunk, rfl⟩ := List.mem_map.1 hpiece
  exact (collapsed_of_mem_chunks hchunk).isPart_trim

/-! ## Rules -/

/-- A dictionary of declarations, with at least one. -/
structure Dictionary.Declared (d : Dictionary) : Prop where
  ne_nil : d.entries ≠ []
  nodup : d.keys.Nodup
  each : ∀ entry ∈ d.entries, IsDeclaration entry.1 entry.2

/-- All texts in a rule are what they stand for. The selector of a rule set is that of the scope
with further parts attached to it. -/
inductive Rule.WellFormed (scope : Text) (headers : List Text) : Rule → Prop
  | ruleSet {rule : RuleSet} {parts : List Text}
      (hselector : rule.selector = parts.foldl Selector.attach (Selector.ofScope scope))
      (hparts : ∀ part ∈ parts, IsSelector headers part) (h : rule.declarations.Declared) :
      WellFormed scope headers (.ruleSet rule)
  | keyframes {name : Text} {steps : List RuleSet} (hname : name.IsPart)
      (hselectors : ∀ step ∈ steps, IsSelector headers step.selector)
      (h : ∀ step ∈ steps, step.declarations.Declared) :
      WellFormed scope headers (.keyframes (qualify scope name) steps)
  | group {type : GroupType} {query : Text} {rules : List Rule} (hquery : query.IsPart)
      (hrules : ∀ rule ∈ rules, WellFormed scope headers rule) :
      WellFormed scope headers (.group type query rules)

/-- All rules of a tree are well formed, and its table maps names to their qualified forms. -/
structure RuleTree.WellFormed (scope : Text) (headers : List Text) (tree : RuleTree) : Prop where
  rules : ∀ rule ∈ tree.rules, rule.WellFormed scope headers
  keyframes : ∀ entry ∈ tree.keyframes.entries,
    Text.IsPart entry.1 ∧ entry.2 = qualify scope entry.1

namespace Content.WellFormed

variable {scope : Text} {c : Content}

theorem isDeclaration (h : c.WellFormed headers) :
    ∀ entry ∈ c.declarations, IsDeclaration entry.1 entry.2 := by
  induction h with
  | nil => simp [declarations]
  | declaration hdeclaration _ ih => exact List.forall_mem_cons.2 ⟨hdeclaration, ih⟩
  | @block head _ _ _ _ _ ihinner ihrest =>
    cases head with
    | keyframes name => exact List.forall_mem_append.2 ⟨ihinner, ihrest⟩
    | selector _ | group _ _ => exact ihrest

theorem declared_of_mem_kept (h : c.WellFormed headers) {selector : Text} {rule : RuleSet}
    (hrule : rule ∈ RuleSet.kept selector c.declarations) :
    rule.selector = selector ∧ rule.declarations.Declared := by
  rw [RuleSet.kept_eq] at hrule
  split at hrule
  · simp at hrule
  · next hne =>
    obtain rfl := List.mem_singleton.1 hrule
    refine ⟨rfl, by simpa [Dictionary.isEmpty] using hne, ?_, fun entry hentry => ?_⟩
    · exact Dictionary.nodup_keys_update (by simp) _
    · rcases Dictionary.mem_entries_update hentry with hentry | hentry
      · simp at hentry
      · exact h.isDeclaration entry hentry

theorem mem_ruleSets (h : c.WellFormed headers) {outer : Text} {rule : RuleSet}
    (hrule : rule ∈ c.ruleSets outer) :
    (∃ parts : List Text, rule.selector = parts.foldl Selector.attach outer ∧
      ∀ part ∈ parts, IsSelector headers part) ∧ rule.declarations.Declared := by
  induction h generalizing outer with
  | nil => simp [ruleSets] at hrule
  | declaration _ _ ih => exact ih hrule
  | @block head _ _ hhead hinner _ ihinner ihrest =>
    cases head with
    | selector part =>
      simp only [ruleSets, List.mem_append] at hrule
      rcases hrule with hrule | hrule | hrule
      · obtain ⟨⟨parts, hselector, hparts⟩, hdeclared⟩ := ihinner hrule
        exact ⟨⟨part :: parts, hselector, List.forall_mem_cons.2 ⟨hhead, hparts⟩⟩, hdeclared⟩
      · obtain ⟨hselector, hdeclared⟩ := hinner.declared_of_mem_kept hrule
        exact ⟨⟨[part], hselector, List.forall_mem_singleton.2 hhead⟩, hdeclared⟩
      · exact ihrest hrule
    | keyframes _ | group _ _ => exact ihrest hrule

theorem mem_steps (h : c.WellFormed headers) {step : RuleSet} (hstep : step ∈ c.steps) :
    IsSelector headers step.selector ∧ step.declarations.Declared := by
  induction h with
  | nil => simp [steps] at hstep
  | declaration _ _ ih => exact ih hstep
  | @block head _ _ hhead hinner _ _ ihrest =>
    cases head with
    | selector selector =>
      rcases List.mem_append.1 hstep with hstep | hstep
      · obtain ⟨hselector, hdeclared⟩ := hinner.declared_of_mem_kept hstep
        exact ⟨hselector ▸ hhead, hdeclared⟩
      · exact ihrest hstep
    | keyframes _ | group _ _ => exact ihrest hstep

theorem own (h : c.WellFormed headers) : ∀ rule ∈ c.own scope, rule.WellFormed scope headers := by
  intro rule hrule
  obtain ⟨rule, hkept, rfl⟩ := List.mem_map.1 hrule
  obtain ⟨hselector, hdeclared⟩ := h.declared_of_mem_kept hkept
  have hparts : ∀ part ∈ ([] : List Text), IsSelector headers part := by simp
  refine .ruleSet ?_ hparts hdeclared
  exact hselector

theorem rules (h : c.WellFormed headers) :
    ∀ rule ∈ c.rules scope, rule.WellFormed scope headers := by
  induction h with
  | nil => simp [Content.rules]
  | declaration _ _ ih => exact ih
  | @block head inner _ hhead hinner _ ihinner ihrest =>
    cases head with
    | selector part =>
      refine List.forall_mem_append.2 ⟨fun rule hrule => ?_, ihrest⟩
      obtain ⟨rule, hmem, rfl⟩ := List.mem_map.1 hrule
      have hblock : (Content.block (.selector part) inner .nil).WellFormed headers :=
        .block hhead hinner .nil
      obtain ⟨⟨parts, hselector, hparts⟩, hdeclared⟩ := hblock.mem_ruleSets hmem
      exact .ruleSet hselector hparts hdeclared
    | keyframes name =>
      refine List.forall_mem_cons.2 ⟨?_, ihrest⟩
      exact .keyframes hhead (fun _ h => (hinner.mem_steps h).1) fun _ h => (hinner.mem_steps h).2
    | group type query =>
      refine List.forall_mem_cons.2 ⟨.group hhead ?_, ihrest⟩
      exact List.forall_mem_append.2 ⟨hinner.own, ihinner⟩

theorem names (h : c.WellFormed headers) : ∀ name ∈ c.names, Text.IsPart name := by
  induction h with
  | nil => simp [Content.names]
  | declaration _ _ ih => exact ih
  | @block head _ _ hhead _ _ ihinner ihrest =>
    cases head with
    | selector _ => exact ihrest
    | keyframes _ => exact List.forall_mem_cons.2 ⟨hhead, ihrest⟩
    | group _ _ => exact List.forall_mem_append.2 ⟨ihinner, ihrest⟩

theorem tree (h : c.WellFormed headers) : (c.tree scope).WellFormed scope headers where
  rules := List.forall_mem_append.2 ⟨h.rules, h.own⟩
  keyframes entry hentry := by
    rcases Dictionary.mem_entries_update hentry with hentry | hentry
    · simp at hentry
    · obtain ⟨name, hname, rfl⟩ := List.mem_map.1 hentry
      exact ⟨h.names name hname, rfl⟩

end Content.WellFormed

/-- The rule tree of every source is well formed. -/
theorem wellFormed_of_parse {scope source : Text} {tree : RuleTree}
    (h : parse scope source = .ok tree) : tree.WellFormed scope (Source.headers source) := by
  obtain ⟨c, hc⟩ := exists_says_of_parse h
  obtain rfl := Except.ok.inj (h.symm.trans hc.parse_eq)
  exact hc.wellFormed.tree

end ScopedStyles
