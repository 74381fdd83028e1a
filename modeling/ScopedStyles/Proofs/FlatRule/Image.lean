import ScopedStyles.Proofs.FlatRule.Reading
import ScopedStyles.Proofs.Rule.Characters
import ScopedStyles.Source.Parse

/-!
# Printed rules as flat rules

What a source says is printed rule by rule, and a sheet takes flat rules. Not every rule of a source
is flat: a property that starts like an at-rule, a blank in the name of an animation and a group
without a query are printed as they are, but not read back. Every other rule is read back as its
image, in which nothing is lost and animations go by their qualified names.

## Main definitions

* `Rule.isFlat` — whether a printed rule is a flat rule.
* `Rule.flat` — the flat rule that it is.

## Main statements

* `FlatDraft.acceptAll?_rule` — what reading the pieces of a rule comes to, in whatever groups.
* `read_printed` — a printed rule is a flat rule exactly when `Rule.isFlat` says so, and is then
  read as its image.
-/

namespace ScopedStyles

/-! ## Images -/

/-- The name that an animation has within its scope. -/
def localName (scope identifier : Text) : Text :=
  identifier.drop (scope.length + 1)

@[simp] theorem localName_qualify (scope name : Text) :
    localName scope (qualify scope name) = name := by
  simp [localName, qualify, List.drop_append]

/-- Declarations with their references renamed. -/
def Dictionary.flat (declarations names : Dictionary) : List (Text × Text) :=
  declarations.entries.map fun entry =>
    (entry.1, Animation.renameValue names entry.1 entry.2)

/-- Whether no property starts like an at-rule. -/
def Dictionary.isFlat (declarations : Dictionary) : Bool :=
  declarations.entries.all fun entry => entry.1.head? != some '@'

@[simp] theorem Dictionary.isFlat_cons (entry : Text × Text) (entries : List (Text × Text)) :
    isFlat ⟨entry :: entries⟩ = (entry.1.head? != some '@' && isFlat ⟨entries⟩) := rfl

section

variable (names : Dictionary)

/-- The style rule that a rule set is printed as. -/
def RuleSet.flat (rule : RuleSet) : StyleRule :=
  ⟨rule.selector, rule.declarations.flat names⟩

mutual

/-- The flat rule that a rule is printed as. -/
def Rule.flat : Rule → FlatRule
  | .ruleSet rule => .style (rule.flat names)
  | .keyframes identifier steps => .keyframes identifier (steps.map (RuleSet.flat names))
  | .group type query rules => .group type (query ++ [' ']) (Rule.flatAll rules)

/-- The flat rules that rules are printed as. -/
def Rule.flatAll : List Rule → List FlatRule
  | [] => []
  | rule :: rules => rule.flat :: Rule.flatAll rules

end

end

section

variable (scope : Text)

mutual

/-- Whether a printed rule is a flat rule. -/
def Rule.isFlat : Rule → Bool
  | .ruleSet rule => rule.declarations.isFlat
  | .keyframes identifier steps =>
    ((localName scope identifier).all fun c => !Text.isBlank c) &&
      steps.all fun step => step.declarations.isFlat
  | .group _ query rules => !query.isEmpty && Rule.areFlat rules

/-- Whether printed rules are flat rules. -/
def Rule.areFlat : List Rule → Bool
  | [] => true
  | rule :: rules => rule.isFlat && Rule.areFlat rules

end

end

/-! ## Reading the pieces -/

namespace FlatDraft

variable {names : Dictionary} {groups : List OpenFlatGroup} {headers : List Text}

theorem acceptAll?_declarations (hnames : ∀ entry ∈ names.entries, entry.2 ≠ [])
    {entries : List (Text × Text)} (h : ∀ entry ∈ entries, IsDeclaration entry.1 entry.2)
    (rule : StyleRule) (animation : Option (Text × List StyleRule)) :
    acceptAll? ⟨.declaration rule animation, groups⟩ (Dictionary.pieces ⟨entries⟩ names) =
      if Dictionary.isFlat ⟨entries⟩ then
        some ⟨.declaration
          { rule with declarations := rule.declarations ++ Dictionary.flat ⟨entries⟩ names }
          animation, groups⟩
      else none := by
  induction entries generalizing rule with
  | nil => simp [Dictionary.pieces, Dictionary.isFlat, Dictionary.flat]
  | cons entry entries ih =>
    obtain ⟨hentry, hentries⟩ := List.forall_mem_cons.1 h
    have hvalue := Animation.renameValue_ne_nil hnames hentry.value_ne_nil entry.1
    have hread := Part.declaration_append hentry.property_part.trimmed.head hentry.property_ne_nil
      hentry.property_colon hvalue
    have hpieces : Dictionary.pieces ⟨entry :: entries⟩ names =
        ⟨entry.1 ++ ':' :: Animation.renameValue names entry.1 entry.2, .semicolon⟩ ::
          Dictionary.pieces ⟨entries⟩ names := rfl
    rw [hpieces, acceptAll?_cons]
    by_cases hat : entry.1.head? = some '@'
    · simp [accept?, Expected.part, hread, hat]
    · simp [accept?, Expected.part, hread, hat, take, ih hentries, Dictionary.flat]

/-- The content of a style rule and its end. -/
theorem acceptAll?_block (hnames : ∀ entry ∈ names.entries, entry.2 ≠ []) {rule : RuleSet}
    (h : rule.declarations.Declared) (animation : Option (Text × List StyleRule)) :
    acceptAll? ⟨.declaration ⟨rule.selector, []⟩ animation, groups⟩
        (rule.declarations.pieces names ++ [⟨[], .closeBrace⟩]) =
      if rule.declarations.isFlat then
        accept? ⟨.declaration (rule.flat names) animation, groups⟩ ⟨[], .closeBrace⟩
      else none := by
  rw [acceptAll?_append, acceptAll?_declarations hnames h.each]
  split
  · simp [RuleSet.flat]
  · rfl

variable {c : Char} {rest : Text}

theorem acceptAll?_ruleSet (hnames : ∀ entry ∈ names.entries, entry.2 ≠ []) {rule : RuleSet}
    (hselector : rule.selector = c :: rest) (hc : Text.isBlank c = false) (hat : c ≠ '@')
    (h : rule.declarations.Declared) :
    acceptAll? ⟨.rule, groups⟩ (rule.pieces names) =
      if rule.declarations.isFlat then some (complete (.style (rule.flat names)) groups)
      else none := by
  have hopen : accept? ⟨.rule, groups⟩ ⟨rule.selector, .openBrace⟩ =
      some ⟨.declaration ⟨rule.selector, []⟩ none, groups⟩ := by
    simp [accept?, Expected.part, hselector, Part.head_cons hc hat, take]
  rw [RuleSet.pieces, acceptAll?_cons, hopen, Option.bind_some, acceptAll?_block hnames h]
  rfl

theorem acceptAll?_step (hnames : ∀ entry ∈ names.entries, entry.2 ≠ []) {step : RuleSet}
    (hselector : IsSelector headers step.selector) (h : step.declarations.Declared) (name : Text)
    (steps : List StyleRule) :
    acceptAll? ⟨.step name steps, groups⟩ (step.pieces names) =
      if step.declarations.isFlat then some ⟨.step name (steps ++ [step.flat names]), groups⟩
      else none := by
  obtain ⟨c, rest, hcons⟩ := List.exists_cons_of_ne_nil hselector.ne_nil
  have hc : Text.isBlank c = false := hselector.part.trimmed.head c (by simp [hcons])
  have hat : c ≠ '@' := by simpa [hcons] using hselector.not_at
  have hopen : accept? ⟨.step name steps, groups⟩ ⟨step.selector, .openBrace⟩ =
      some ⟨.declaration ⟨step.selector, []⟩ (some (name, steps)), groups⟩ := by
    simp [accept?, Expected.part, hcons, Part.step_cons hc hat, take]
  rw [RuleSet.pieces, acceptAll?_cons, hopen, Option.bind_some, acceptAll?_block hnames h]
  rfl

theorem acceptAll?_steps (hnames : ∀ entry ∈ names.entries, entry.2 ≠ []) {steps : List RuleSet}
    (hselectors : ∀ step ∈ steps, IsSelector headers step.selector)
    (h : ∀ step ∈ steps, step.declarations.Declared) (name : Text) (done : List StyleRule) :
    acceptAll? ⟨.step name done, groups⟩ (steps.flatMap (RuleSet.pieces names)) =
      if steps.all fun step => step.declarations.isFlat then
        some ⟨.step name (done ++ steps.map (RuleSet.flat names)), groups⟩
      else none := by
  induction steps generalizing done with
  | nil => simp
  | cons step steps ih =>
    rw [List.forall_mem_cons] at hselectors h
    rw [List.flatMap_cons, acceptAll?_append, acceptAll?_step hnames hselectors.1 h.1]
    by_cases hflat : step.declarations.isFlat = true
    · simp [hflat, ih hselectors.2 h.2]
    · simp [hflat]

/-- Rules in a group are read one after the other if each of them is read. -/
theorem acceptAll?_body {scope : Text} {rules : List Rule}
    (h : ∀ rule ∈ rules, ∀ groups, acceptAll? ⟨.rule, groups⟩ (rule.pieces names) =
      if rule.isFlat scope then some (complete (rule.flat names) groups) else none)
    (group : OpenFlatGroup) :
    acceptAll? ⟨.rule, group :: groups⟩ (Rule.bodyPieces names rules) =
      if Rule.areFlat scope rules then
        some ⟨.rule, { group with rules := group.rules ++ Rule.flatAll names rules } :: groups⟩
      else none := by
  induction rules generalizing group with
  | nil => simp [Rule.bodyPieces, Rule.areFlat, Rule.flatAll]
  | cons rule rules ih =>
    obtain ⟨hrule, hrules⟩ := List.forall_mem_cons.1 h
    rw [Rule.bodyPieces, acceptAll?_append, hrule]
    by_cases hflat : rule.isFlat scope = true
    · simp [hflat, complete, ih hrules, Rule.areFlat, Rule.flatAll]
    · simp [hflat, Rule.areFlat]

theorem acceptAll?_keyframes {scope name : Text} (hscope : ∀ c ∈ scope, Text.isBlank c = false)
    (hnames : ∀ entry ∈ names.entries, entry.2 ≠ []) (hname : name.Trimmed) {steps : List RuleSet}
    (hselectors : ∀ step ∈ steps, IsSelector headers step.selector)
    (h : ∀ step ∈ steps, step.declarations.Declared) :
    acceptAll? ⟨.rule, groups⟩ ((Rule.keyframes (qualify scope name) steps).pieces names) =
      if (Rule.keyframes (qualify scope name) steps).isFlat scope then
        some (complete ((Rule.keyframes (qualify scope name) steps).flat names) groups)
      else none := by
  rw [Rule.pieces, acceptAll?_cons, Rule.isFlat, localName_qualify, accept?, Expected.part,
    Part.head_qualify hscope hname]
  by_cases hblank : (name.all fun c => !Text.isBlank c) = true
  · rw [if_pos hblank, hblank, Bool.true_and]
    dsimp only [take]
    rw [Option.bind_some, acceptAll?_append, acceptAll?_steps hnames hselectors h]
    split
    · rfl
    · rfl
  · simp [hblank]

theorem acceptAll?_group {scope query : Text} (type : GroupType) (hquery : query.Trimmed)
    {rules : List Rule}
    (h : ∀ rule ∈ rules, ∀ groups, acceptAll? ⟨.rule, groups⟩ (rule.pieces names) =
      if rule.isFlat scope then some (complete (rule.flat names) groups) else none) :
    acceptAll? ⟨.rule, groups⟩ ((Rule.group type query rules).pieces names) =
      if (Rule.group type query rules).isFlat scope then
        some (complete ((Rule.group type query rules).flat names) groups)
      else none := by
  rw [Rule.pieces, acceptAll?_cons, Rule.isFlat, accept?, Expected.part, Part.head_group,
    Part.query_space hquery]
  by_cases hempty : query = []
  · simp [hempty, take]
  · have hnonempty : (!query.isEmpty) = true := by simpa using hempty
    rw [if_neg hempty, hnonempty, Bool.true_and]
    dsimp only [take]
    rw [Option.bind_some, acceptAll?_append, acceptAll?_body h]
    split
    · rfl
    · rfl

/-- What reading the pieces of a rule comes to. The induction is on how the rule is built, with the
groups around it left open. -/
theorem acceptAll?_rule {scope : Text} (hscope : ∀ c ∈ scope, Text.isBlank c = false)
    (hnames : ∀ entry ∈ names.entries, entry.2 ≠ []) {rule : Rule}
    (h : rule.WellFormed scope headers) (groups : List OpenFlatGroup) :
    acceptAll? ⟨.rule, groups⟩ (rule.pieces names) =
      if rule.isFlat scope then some (complete (rule.flat names) groups) else none := by
  induction h generalizing groups with
  | @ruleSet rule parts hselector _ hdeclared =>
    obtain ⟨rest, hrest⟩ := Selector.isPrefix_foldl_attach (Selector.ofScope scope) parts
    rw [← hrest] at hselector
    exact acceptAll?_ruleSet hnames hselector (by decide) (by decide) hdeclared
  | keyframes hname hselectors hdeclared =>
    exact acceptAll?_keyframes hscope hnames hname.trimmed hselectors hdeclared
  | group hquery _ ih => exact acceptAll?_group _ hquery.trimmed ih

end FlatDraft

/-! ## Agreement -/

theorem Rule.WellFormed.read_text_eq_ok_iff {scope : Text} {headers : List Text}
    {names : Dictionary} {rule : Rule} (h : rule.WellFormed scope headers)
    (hscope : ∀ c ∈ scope, Text.isBlank c = false ∧ Delimiter.ofChar? c = none)
    (hnames : ∀ entry ∈ names.entries, entry.2 ≠ [] ∧ Text.Plain entry.2) (flat : FlatRule) :
    FlatRule.read (rule.text names) = .ok flat ↔ rule.isFlat scope ∧ rule.flat names = flat := by
  have hplain : ∀ piece ∈ rule.pieces names, piece.text.Plain := h.forall_mem_pieces
    (fun c hc => hc.1) (fun c hc => (hscope c hc).2) fun entry hentry => (hnames entry hentry).2
  rw [Rule.text_eq_written, FlatRule.read_written_eq_ok_iff hplain]
  have haccept := FlatDraft.acceptAll?_rule (fun c hc => (hscope c hc).1)
    (fun entry hentry => (hnames entry hentry).1) h []
  rw [haccept]
  by_cases hflat : rule.isFlat scope = true
  · simp [hflat, FlatDraft.complete]
  · simp [hflat]

/-- Under a scope without blanks and delimiters, a printed rule of a source is a flat rule exactly
when none of its properties starts with an at sign, none of its animations has a blank in its name,
and none of its groups is without a query. It is then read as its image. -/
theorem read_printed {scope source : Text} {tree : RuleTree} {i : Nat} {rule : Rule} {text : Text}
    (hscope : ∀ c ∈ scope, Text.isBlank c = false ∧ Delimiter.ofChar? c = none)
    (h : parse scope source = .ok tree) (hrule : tree.rules[i]? = some rule)
    (htext : tree.texts[i]? = some text) :
    (FlatRule.accepts text ↔ rule.isFlat scope) ∧
      (rule.isFlat scope → FlatRule.read text = .ok (rule.flat tree.keyframes)) := by
  have htree := wellFormed_of_parse h
  obtain rfl : rule.text tree.keyframes = text := by simpa [RuleTree.texts, hrule] using htext
  have hplain : ∀ entry ∈ tree.keyframes.entries, Text.Plain entry.2 :=
    htree.forall_mem_names (fun c hc => hc.1) fun c hc => (hscope c hc).2
  have hnames : ∀ entry ∈ tree.keyframes.entries, entry.2 ≠ [] ∧ Text.Plain entry.2 := by
    intro entry hentry
    obtain ⟨-, hqualified⟩ := htree.keyframes entry hentry
    exact ⟨by simp [hqualified, qualify], hplain entry hentry⟩
  have hread := (htree.rules rule (List.mem_of_getElem? hrule)).read_text_eq_ok_iff hscope hnames
  have himage : rule.isFlat scope → FlatRule.read (rule.text tree.keyframes) =
      .ok (rule.flat tree.keyframes) := fun hflat => (hread _).2 ⟨hflat, rfl⟩
  refine ⟨⟨fun haccepts => ?_, fun hflat => ?_⟩, himage⟩
  · obtain ⟨flat, hok⟩ := FlatRule.accepts_iff_exists.1 haccepts
    exact ((hread flat).1 hok).1
  · exact FlatRule.accepts_iff_exists.2 ⟨_, himage hflat⟩

theorem read_printed_group :
    FlatRule.accepts "@media q {.k a{animation:k-m 1s;}}".toList ∧
      FlatRule.read "@media q {.k a{animation:k-m 1s;}}".toList =
        .ok (.group .media "q ".toList
          [.style ⟨".k a".toList, [("animation".toList, "k-m 1s".toList)]⟩]) := by
  have h : parse ['k'] "@media q{a{animation:m 1s}}@keyframes m{from{b:c}}".toList = .ok
      ⟨[.group .media ['q'] [.ruleSet ⟨".k a".toList, ⟨[("animation".toList, "m 1s".toList)]⟩⟩],
        .keyframes "k-m".toList [⟨"from".toList, ⟨[(['b'], ['c'])]⟩⟩]],
        ⟨[(['m'], "k-m".toList)]⟩⟩ := by decide +kernel
  have hscope : ∀ c ∈ ['k'], Text.isBlank c = false ∧ Delimiter.ofChar? c = none :=
    List.forall_mem_singleton.2 ⟨rfl, rfl⟩
  obtain ⟨haccepts, hread⟩ := read_printed (i := 0) hscope h rfl rfl
  have hflat : (Rule.group .media ['q']
      [.ruleSet ⟨".k a".toList, ⟨[("animation".toList, "m 1s".toList)]⟩⟩]).isFlat ['k'] = true := by
    decide
  exact ⟨haccepts.2 hflat, hread hflat⟩

end ScopedStyles
