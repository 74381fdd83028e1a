import ScopedStyles.Proofs.Grammar.Agreement
import ScopedStyles.Proofs.Rule.Clean

/-!
# Printing and parsing

Clean rules can be printed and parsed again. Under a scope they come back with their selectors
attached to the scope's class and with the names of their animations qualified; all else comes back
as it was.

## Main definitions

* `Rule.content` — what a printed rule says.
* `Rule.under` — what becomes of a rule under a scope.

## Main statements

* `Rule.IsClean.exists_printed` — a printed rule has its content, whatever follows it.
* `parse_texts` — clean rules come back from parsing.
-/

namespace ScopedStyles

/-! ## Contents of printed rules -/

namespace Content

/-- Declarations and nothing else. -/
def ofDeclarations : List (Text × Text) → Content
  | [] => nil
  | entry :: entries => declaration entry.1 entry.2 (ofDeclarations entries)

/-- Steps of an animation and nothing else. -/
def ofSteps : List RuleSet → Content
  | [] => nil
  | step :: steps =>
    block (.selector step.selector) (ofDeclarations step.declarations.entries) (ofSteps steps)

@[simp] theorem declarations_ofDeclarations (entries : List (Text × Text)) :
    (ofDeclarations entries).declarations = entries := by
  induction entries with
  | nil => rfl
  | cons entry entries ih => simp [ofDeclarations, declarations, ih]

@[simp] theorem ruleSets_ofDeclarations (outer : Text) (entries : List (Text × Text)) :
    (ofDeclarations entries).ruleSets outer = [] := by
  induction entries with
  | nil => rfl
  | cons entry entries ih => simp [ofDeclarations, ruleSets, ih]

@[simp] theorem declarations_ofSteps (steps : List RuleSet) :
    (ofSteps steps).declarations = [] := by
  induction steps with
  | nil => rfl
  | cons step steps ih => simp [ofSteps, declarations, ih]

end Content

mutual

/-- What a printed rule says, if `rest` follows it. -/
def Rule.content : Rule → Content → Content
  | .ruleSet rule, rest =>
    .block (.selector rule.selector) (.ofDeclarations rule.declarations.entries) rest
  | .keyframes identifier steps, rest => .block (.keyframes identifier) (.ofSteps steps) rest
  | .group type query rules, rest => .block (.group type query) (Rule.bodyContent rules) rest

/-- What printed rules say one after the other. -/
def Rule.bodyContent : List Rule → Content
  | [] => .nil
  | rule :: rules => rule.content (Rule.bodyContent rules)

end

/-! ## Parsing what is printed -/

theorem Dictionary.IsClean.derives {d : Dictionary} (h : d.IsClean) (level : Level) :
    Derives level (.ofDeclarations d.entries) (d.pieces ∅) [] := by
  obtain ⟨entries⟩ := d
  have heach := h.each
  clear h
  induction entries with
  | nil => exact .nil
  | cons entry entries ih =>
    obtain ⟨hentry, hentries⟩ := List.forall_mem_cons.1 heach
    rw [pieces, List.map_cons, hentry.renameValue_eq]
    exact .declaration hentry.declares (ih hentries)

/-- A printed rule set is a block, at whatever level. -/
theorem RuleSet.IsClean.derives {rule : RuleSet} (h : rule.IsClean) {level inside : Level}
    (hholds : level.Holds (.selector rule.selector) inside) {rest : Content} {pieces : List Piece}
    {last : Text} (hrest : Derives level rest pieces last) :
    Derives level
      (.block (.selector rule.selector) (.ofDeclarations rule.declarations.entries) rest)
      (rule.pieces ∅ ++ pieces) last := by
  have hblock := Derives.block (.selector h.selector.ne_nil h.not_at) hholds
    (h.declarations.derives inside) hrest
  simpa [RuleSet.pieces] using hblock

theorem derives_steps {steps : List RuleSet} (h : ∀ step ∈ steps, step.IsClean) :
    Derives .keyframes (.ofSteps steps) (steps.flatMap (RuleSet.pieces ∅)) [] := by
  induction steps with
  | nil => exact .nil
  | cons step steps ih =>
    obtain ⟨hstep, hsteps⟩ := List.forall_mem_cons.1 h
    exact hstep.derives (.step _) (ih hsteps)

/-- A printed rule is read as some pieces, which have its content whatever follows them. -/
structure Rule.Printed (rule : Rule) (pieces : List Piece) : Prop where
  isRead : Source.IsRead (rule.text ∅) pieces
  derives : ∀ {rest : Content} {more : List Piece} {last : Text}, Derives .body rest more last →
    Derives .body (rule.content rest) (pieces ++ more) last

/-- Printed rules are a body. -/
theorem Rule.exists_body {rules : List Rule} (h : ∀ rule ∈ rules, ∃ pieces, rule.Printed pieces) :
    ∃ pieces, Source.IsRead (Rule.bodyText ∅ rules) pieces ∧
      Derives .body (Rule.bodyContent rules) pieces [] := by
  induction rules with
  | nil => exact ⟨[], .nil, .nil⟩
  | cons rule rules ih =>
    obtain ⟨⟨pieces, hrule⟩, hrules⟩ := List.forall_mem_cons.1 h
    obtain ⟨more, hread, hderives⟩ := ih hrules
    exact ⟨pieces ++ more, hrule.isRead.append hread, hrule.derives hderives⟩

theorem Rule.IsClean.exists_printed {rule : Rule} (h : rule.IsClean) :
    ∃ pieces, rule.Printed pieces := by
  induction h with
  | @ruleSet rule h => exact ⟨rule.pieces ∅, h.isRead, h.derives (.rule _)⟩
  | @keyframes identifier steps hidentifier hsteps =>
    obtain ⟨text, hheads, hread⟩ := Source.exists_isRead_keyframes hidentifier
    have hbody := Source.IsRead.flatMap fun step hstep => (hsteps step hstep).isRead
    refine ⟨⟨text, .openBrace⟩ :: (steps.flatMap (RuleSet.pieces ∅) ++ [⟨[], .closeBrace⟩]),
      ?_, fun hrest => ?_⟩
    · have hwhole := (hread.append hbody).append Source.isRead_closeBrace
      simpa [Rule.text] using hwhole
    · have hblock := Derives.block hheads (.keyframes _) (derives_steps hsteps) hrest
      simpa [Rule.content] using hblock
  | @group type query rules hquery _ ih =>
    obtain ⟨text, hheads, hread⟩ := Source.exists_isRead_group type hquery
    obtain ⟨pieces, hbody, hderives⟩ := Rule.exists_body ih
    refine ⟨⟨text, .openBrace⟩ :: (pieces ++ [⟨[], .closeBrace⟩]), ?_, fun hrest => ?_⟩
    · have hwhole := (hread.append hbody).append Source.isRead_closeBrace
      simpa [Rule.text] using hwhole
    · have hblock := Derives.block hheads (.group type query) hderives hrest
      simpa [Rule.content] using hblock

/-! ## The rule tree -/

section

variable (scope : Text)

mutual

/-- What becomes of a rule under a scope. -/
def Rule.under : Rule → Rule
  | .ruleSet rule =>
    .ruleSet ⟨Selector.attach (Selector.ofScope scope) rule.selector, rule.declarations⟩
  | .keyframes identifier steps => .keyframes (qualify scope identifier) steps
  | .group type query rules => .group type query (Rule.allUnder rules)

/-- What becomes of rules under a scope. -/
def Rule.allUnder : List Rule → List Rule
  | [] => []
  | rule :: rules => rule.under :: Rule.allUnder rules

end

end

mutual

/-- The names of the animations in a rule. -/
def Rule.names : Rule → List Text
  | .ruleSet _ => []
  | .keyframes identifier _ => [identifier]
  | .group _ _ rules => Rule.allNames rules

/-- The names of the animations in some rules. -/
def Rule.allNames : List Rule → List Text
  | [] => []
  | rule :: rules => rule.names ++ Rule.allNames rules

end

@[simp] theorem Rule.allUnder_eq_map (scope : Text) (rules : List Rule) :
    Rule.allUnder scope rules = rules.map (Rule.under scope) := by
  induction rules with
  | nil => rfl
  | cons rule rules ih => simp [Rule.allUnder, ih]

@[simp] theorem Rule.allNames_eq_flatMap (rules : List Rule) :
    Rule.allNames rules = rules.flatMap Rule.names := by
  induction rules with
  | nil => rfl
  | cons rule rules ih => simp [Rule.allNames, ih]

theorem Dictionary.IsClean.kept {d : Dictionary} (h : d.IsClean) (selector : Text) :
    RuleSet.kept selector d.entries = [⟨selector, d⟩] := by
  rw [RuleSet.kept, if_neg h.ne_nil, Dictionary.ofList_entries h.nodup]

theorem Content.steps_ofSteps {steps : List RuleSet} (h : ∀ step ∈ steps, step.IsClean) :
    (ofSteps steps).steps = steps := by
  induction steps with
  | nil => rfl
  | cons step steps ih =>
    obtain ⟨hstep, hsteps⟩ := List.forall_mem_cons.1 h
    rw [ofSteps, Content.steps, declarations_ofDeclarations, hstep.declarations.kept, ih hsteps]
    rfl

namespace Rule

@[simp] theorem declarations_content (rule : Rule) (rest : Content) :
    (rule.content rest).declarations = rest.declarations := by
  cases rule with
  | ruleSet rule => rfl
  | keyframes identifier steps => simp [content, Content.declarations]
  | group type query rules => rfl

@[simp] theorem declarations_bodyContent (rules : List Rule) :
    (bodyContent rules).declarations = [] := by
  induction rules with
  | nil => rfl
  | cons rule rules ih => rw [bodyContent, declarations_content, ih]

mutual

theorem names_content (rule : Rule) (rest : Content) :
    (rule.content rest).names = rule.names ++ rest.names := by
  cases rule with
  | ruleSet rule => rfl
  | keyframes identifier steps => rfl
  | group type query rules => rw [content, Content.names, names_bodyContent, names]

theorem names_bodyContent (rules : List Rule) :
    (bodyContent rules).names = allNames rules := by
  cases rules with
  | nil => rfl
  | cons rule rules => rw [bodyContent, names_content, names_bodyContent, allNames]

end

variable {scope : Text}

theorem rules_bodyContent {rules : List Rule}
    (h : ∀ rule ∈ rules, ∀ rest : Content,
      (rule.content rest).rules scope = rule.under scope :: rest.rules scope) :
    (bodyContent rules).rules scope = allUnder scope rules := by
  induction rules with
  | nil => rfl
  | cons rule rules ih =>
    obtain ⟨hrule, hrules⟩ := List.forall_mem_cons.1 h
    rw [bodyContent, hrule, ih hrules, allUnder]

theorem IsClean.rules_content {rule : Rule} (h : rule.IsClean) (rest : Content) :
    (rule.content rest).rules scope = rule.under scope :: rest.rules scope := by
  induction h generalizing rest with
  | ruleSet h =>
    simp [content, Content.rules, Content.ruleSets, h.declarations.kept, under]
  | keyframes hidentifier hsteps =>
    rw [content, Content.rules, Content.steps_ofSteps hsteps, under]
  | group _ _ ih =>
    have hown : ∀ c : Content, c.declarations = [] → c.own scope = [] := fun c hc => by
      simp [Content.own, hc, RuleSet.kept]
    rw [content, Content.rules, hown _ (declarations_bodyContent _), List.nil_append,
      rules_bodyContent ih, under]

end Rule

/-- Clean rules that are printed and parsed under a scope come back as what becomes of them under
that scope, in their order, with a table of the qualified names of their animations. -/
theorem parse_texts (scope : Text) {rules : List Rule} (h : ∀ rule ∈ rules, rule.IsClean) :
    parse scope (RuleTree.texts ⟨rules, ∅⟩).flatten =
      .ok ⟨rules.map (Rule.under scope),
        .ofList ((rules.flatMap Rule.names).map fun name => (name, qualify scope name))⟩ := by
  obtain ⟨pieces, hread, hderives⟩ :=
    Rule.exists_body fun rule hrule => (h rule hrule).exists_printed
  have htext : (RuleTree.texts ⟨rules, ∅⟩).flatten = Rule.bodyText ∅ rules := by
    rw [Rule.bodyText_eq_flatMap, RuleTree.texts, List.flatMap_def]
  have hsays : Source.Says (Rule.bodyText ∅ rules) (Rule.bodyContent rules) := by
    rw [Source.Says, hread.pieces_eq, hread.lastPiece_eq]
    exact hderives
  have hrules : (Rule.bodyContent rules).rules scope = Rule.allUnder scope rules :=
    Rule.rules_bodyContent fun rule hrule => (h rule hrule).rules_content
  have hown : (Rule.bodyContent rules).own scope = [] := by simp [Content.own, RuleSet.kept]
  have hnames : (Rule.bodyContent rules).names = Rule.allNames rules :=
    Rule.names_bodyContent rules
  rw [htext, hsays.parse_eq, Content.tree, hrules, hown, Content.identifiers, hnames,
    List.append_nil, Rule.allUnder_eq_map, Rule.allNames_eq_flatMap]

theorem parse_texts_group :
    parse ['k'] "@supports (a:b) {@keyframes m{from{c:d;}}:hover{animation:m 1s,n;}}".toList =
      .ok ⟨[.group .supports "(a:b)".toList
          [.keyframes "k-m".toList [⟨"from".toList, ⟨[(['c'], ['d'])]⟩⟩],
            .ruleSet ⟨".k:hover".toList, ⟨[("animation".toList, "m 1s,n".toList)]⟩⟩]],
        ⟨[(['m'], "k-m".toList)]⟩⟩ := by
  have hfrom : RuleSet.IsClean ⟨"from".toList, ⟨[(['c'], ['d'])]⟩⟩ :=
    ⟨by decide, by decide, by decide, by decide,
      List.forall_mem_singleton.2 ⟨by decide, by decide, by decide, by decide⟩⟩
  have hanimation : IsCleanDeclaration "animation".toList "m 1s,n".toList :=
    ⟨by decide +kernel, by decide, by decide +kernel, fun _ => by decide +kernel⟩
  have hhover : RuleSet.IsClean ⟨":hover".toList, ⟨[("animation".toList, "m 1s,n".toList)]⟩⟩ :=
    ⟨by decide +kernel, by decide, by decide, by decide +kernel,
      List.forall_mem_singleton.2 hanimation⟩
  have hgroup : Rule.IsClean (.group .supports "(a:b)".toList
      [.keyframes ['m'] [⟨"from".toList, ⟨[(['c'], ['d'])]⟩⟩],
        .ruleSet ⟨":hover".toList, ⟨[("animation".toList, "m 1s,n".toList)]⟩⟩]) := by
    refine .group (by decide +kernel) (List.forall_mem_cons.2 ⟨?_, List.forall_mem_singleton.2 ?_⟩)
    · exact .keyframes (by decide +kernel) (List.forall_mem_singleton.2 hfrom)
    · exact .ruleSet hhover
  exact parse_texts ['k'] (List.forall_mem_singleton.2 hgroup)

end ScopedStyles
