import ScopedStyles.Proofs.Grammar.Failure
import ScopedStyles.Proofs.Grammar.Step

/-!
# At-rules

An at-rule is told by what its header starts with, and not by the whole of its keyword. So a keyword
that starts with a known one is taken for the known one, and what is left of it for the beginning of
a name or of a query. All other keywords are told apart as a whole.

## Main definitions

* `AtRule` — the at-rules that are known.
* `Header.keyword` — the keyword of an at-rule.
* `Source.Classifies` — a property of at-rules tells which block a brace opens.

## Main statements

* `Draft.openBlock_eq_ok_iff_isPrefix`, `Draft.openBlock_eq_disallowed_iff` — what becomes of an
  at-rule that stands in a body.
* `Source.classifies_isPrefix`, `Source.exists_opens` — the same for an opening brace of a source.
* `atRules_classified` — where an at-rule is refused, which block it opens, and when this depends on
  its whole keyword.
-/

namespace ScopedStyles

/-! ## Keywords -/

/-- An at-rule that is known. -/
inductive AtRule
  | keyframes
  | group (type : GroupType)
  deriving DecidableEq, Repr

/-- The keyword of a known at-rule. -/
def AtRule.keyword : AtRule → Text
  | keyframes => keyframesKeyword
  | group type => type.keyword

/-- The head of a known at-rule with its name or its query. -/
def AtRule.head (text : Text) : AtRule → Head
  | keyframes => .keyframes text
  | group type => .group type text

/-- A letter of the basic alphabet, a digit, a hyphen or an underscore. -/
def Header.isNameChar (c : Char) : Bool :=
  c.isAlphanum || c = '-' || c = '_'

/-- The keyword of an at-rule: its at sign and the longest run of characters of names behind it. -/
def Header.keyword (isName : Char → Bool) : Text → Text
  | [] => []
  | c :: t => c :: t.takeWhile isName

/-- A known keyword is an at sign and characters of names. -/
theorem AtRule.exists_keyword_eq (rule : AtRule) :
    ∃ name : Text, rule.keyword = '@' :: name ∧ ∀ c ∈ name, Header.isNameChar c = true := by
  rcases rule with _ | _ | _
  all_goals exact ⟨_, rfl, List.all_eq_true.1 (by decide)⟩

/-- A header starts with a known keyword exactly if its own keyword does. -/
theorem AtRule.isPrefix_keyword_iff {isName : Char → Bool}
    (hname : ∀ c, Header.isNameChar c = true → isName c = true) (rule : AtRule) (header : Text) :
    rule.keyword <+: Header.keyword isName header ↔ rule.keyword <+: header := by
  obtain ⟨name, hkeyword, hchars⟩ := rule.exists_keyword_eq
  rw [hkeyword]
  cases header with
  | nil => rfl
  | cons c t =>
    rw [Header.keyword, List.cons_prefix_cons, List.cons_prefix_cons]
    refine and_congr_right fun _ => ⟨fun h => h.trans (List.takeWhile_prefix _), ?_⟩
    rintro ⟨rest, rfl⟩
    rw [List.takeWhile_append_of_pos fun c hc => hname c (hchars c hc)]
    exact List.prefix_append _ _

/-! ## Opening the block of an at-rule -/

variable {scope : Text}

theorem AtRule.heads {rule : AtRule} {text : Text} (h : rule.keyword <+: text) :
    ∃ t, Heads text (rule.head t) := by
  obtain ⟨rest, rfl⟩ := h
  cases rule with
  | keyframes => exact ⟨_, .keyframes rest⟩
  | group type => exact ⟨_, .group type rest⟩

theorem Heads.exists_atRule {text : Text} {head : Head} (h : Heads text head)
    (hat : text.head? = some '@') :
    ∃ (rule : AtRule) (t : Text), head = rule.head t ∧ rule.keyword <+: text := by
  cases h with
  | selector _ hne => exact absurd hat hne
  | keyframes name => exact ⟨.keyframes, _, rfl, List.prefix_append _ _⟩
  | group type query => exact ⟨.group type, _, rfl, List.prefix_append _ _⟩

namespace Draft

variable {d : Draft} {text : Text}

theorem level_eq_body_iff : d.level = .body ↔ d.place = .body := by
  obtain ⟨body, place, groups, keyframes⟩ := d
  rcases place with _ | _ | ⟨_, _, _ | _⟩ <;> simp [level]

/-- The draft in which the block of an at-rule has been opened tells the at-rule. -/
theorem enter_atRule_inj (hlevel : d.level = .body) {rule rule' : AtRule} {t t' : Text}
    (h : d.enter scope (rule.head t) = d.enter scope (rule'.head t')) : rule = rule' := by
  have hplace := level_eq_body_iff.1 hlevel
  obtain ⟨body, place, groups, keyframes⟩ := d
  obtain rfl : place = .body := hplace
  cases rule <;> cases rule' <;> simp_all [enter, AtRule.head]

/-- In a body, the block of an at-rule is opened by every header that starts with its keyword. -/
theorem openBlock_eq_ok_iff_isPrefix (hlevel : d.level = .body) (hat : text.head? = some '@')
    (rule : AtRule) :
    (∃ t, d.openBlock scope text = .ok (d.enter scope (rule.head t))) ↔ rule.keyword <+: text := by
  constructor
  · rintro ⟨t, h⟩
    obtain ⟨head, inside, hhead, -, henter⟩ := openBlock_eq_ok_iff.1 h
    obtain ⟨rule', t', rfl, hprefix⟩ := hhead.exists_atRule hat
    rwa [← enter_atRule_inj hlevel henter]
  · intro h
    obtain ⟨t, hheads⟩ := rule.heads h
    refine ⟨t, openBlock_eq_ok_iff.2 ?_⟩
    rw [hlevel]
    cases rule with
    | keyframes => exact ⟨_, _, hheads, .keyframes t, rfl⟩
    | group type => exact ⟨_, _, hheads, .group type t, rfl⟩

/-- In a body, a header that starts with no known keyword is refused as one that is not allowed. -/
theorem openBlock_eq_disallowed_iff (hlevel : d.level = .body) (hat : text.head? = some '@') :
    d.openBlock scope text = .error (.disallowedAtRule text) ↔
      ∀ rule : AtRule, ¬ rule.keyword <+: text := by
  constructor
  · intro h rule hprefix
    obtain ⟨t, hok⟩ := (openBlock_eq_ok_iff_isPrefix hlevel hat rule).2 hprefix
    cases hok.symm.trans h
  · intro h
    have hne : text ≠ [] := by
      rintro rfl
      cases hat
    have hunknown : Header.ofText text = .unknown := by
      by_contra hknown
      obtain ⟨head, hhead⟩ := exists_heads hne hknown
      obtain ⟨rule, t, -, hprefix⟩ := hhead.exists_atRule hat
      exact h rule hprefix
    rw [openBlock, if_neg hne, level_eq_body_iff.1 hlevel, hunknown]

end Draft

/-! ## Opening braces of a source -/

namespace Source

variable {a b : Text} {d : Draft}

/-- An opening brace outside comments is read with what follows the last delimiter before it. -/
theorem readAll_openBrace (h : (pendingAt a ['{']).phase = .outside)
    (hread : Draft.readAll scope {} (chunks a) = .ok d) :
    Draft.readAll scope {} (chunks (a ++ ['{'])) =
      match d.openBlock scope (lastPiece a) with
      | .ok d => .ok d
      | .error fault => .error (fault, a.length) := by
  obtain ⟨text, htrim, hchunks⟩ := exists_chunks_concat (d := .openBrace) h
  have hbrace : chunks (a ++ ['{']) = chunks a ++ [⟨text, .openBrace, a.length⟩] := hchunks
  rw [hbrace, Draft.readAll_append, hread]
  change Draft.readAll scope d [⟨text, .openBrace, a.length⟩] = _
  rw [Draft.readAll, Draft.read, htrim]
  rfl

/-- A source is faulty at an opening brace exactly if the block cannot be opened. -/
theorem parse_openBrace_eq_error_iff (h : (pendingAt a ['{']).phase = .outside)
    (hread : Draft.readAll scope {} (chunks a) = .ok d) {fault : Fault} :
    parse scope (a ++ '{' :: b) =
        .error ⟨fault, a.length, Text.locate (a ++ '{' :: b) a.length⟩ ↔
      d.openBlock scope (lastPiece a) = .error fault := by
  have hsplit : a ++ '{' :: b = (a ++ ['{']) ++ b := by simp
  have hlength : a.length < (a ++ ['{']).length := by simp
  rw [parse_eq_error_iff, and_iff_left rfl, hsplit, tree_append_eq_error_iff hlength,
    readAll_openBrace h hread]
  cases d.openBlock scope (lastPiece a) <;> simp

/-- The brace behind a text opens the block of an at-rule. -/
def Opens (scope a : Text) (d : Draft) (rule : AtRule) : Prop :=
  ∃ t, Draft.readAll scope {} (chunks (a ++ ['{'])) = .ok (d.enter scope (rule.head t))

theorem opens_iff (h : (pendingAt a ['{']).phase = .outside)
    (hread : Draft.readAll scope {} (chunks a) = .ok d) {rule : AtRule} :
    Opens scope a d rule ↔
      ∃ t, d.openBlock scope (lastPiece a) = .ok (d.enter scope (rule.head t)) := by
  rw [Opens, readAll_openBrace h hread]
  cases d.openBlock scope (lastPiece a) <;> simp

/-- A property of the known at-rules tells what becomes of the one in front of a brace: the block of
those that have it is opened, and where none has it the at-rule is refused as one that is not
allowed. -/
structure Classifies (scope a b : Text) (d : Draft) (property : AtRule → Prop) : Prop where
  opens_iff : ∀ rule, Opens scope a d rule ↔ property rule
  disallowed_iff :
    parse scope (a ++ '{' :: b) = .error
        ⟨.disallowedAtRule (lastPiece a), a.length, Text.locate (a ++ '{' :: b) a.length⟩ ↔
      ∀ rule, ¬ property rule

/-- An accepted source is read up to each of its opening braces, and the brace opens a block. -/
theorem exists_openBlock_eq_ok (h : (pendingAt a ['{']).phase = .outside) {tree : RuleTree}
    (hparse : parse scope (a ++ '{' :: b) = .ok tree) :
    ∃ d d', Draft.readAll scope {} (chunks a) = .ok d ∧
      d.openBlock scope (lastPiece a) = .ok d' := by
  obtain ⟨last, hread, -⟩ := parse_eq_ok_iff.1 hparse
  have hsplit : a ++ '{' :: b = (a ++ ['{']) ++ b := by simp
  cases hfront : Draft.readAll scope {} (chunks a) with
  | error failure =>
    rw [chunks_eq_append, Draft.readAll_append, hfront] at hread
    cases hread
  | ok d =>
    rw [hsplit, chunks_eq_append, Draft.readAll_append, readAll_openBrace h hfront] at hread
    cases hopen : d.openBlock scope (lastPiece a) with
    | error fault =>
      rw [hopen] at hread
      cases hread
    | ok d' => exact ⟨d, d', rfl, hopen⟩

/-- In a body, the block of an at-rule is opened by the headers that start with its keyword. -/
theorem classifies_isPrefix (h : (pendingAt a ['{']).phase = .outside)
    (hread : Draft.readAll scope {} (chunks a) = .ok d) (hlevel : d.level = .body)
    (hat : (lastPiece a).head? = some '@') :
    Classifies scope a b d fun rule => rule.keyword <+: lastPiece a where
  opens_iff rule := by
    rw [opens_iff h hread, Draft.openBlock_eq_ok_iff_isPrefix hlevel hat]
  disallowed_iff := by
    rw [parse_openBrace_eq_error_iff h hread, Draft.openBlock_eq_disallowed_iff hlevel hat]

/-- An accepted source has its at-rules in bodies, and opens the block of a known one for each. -/
theorem exists_opens (h : (pendingAt a ['{']).phase = .outside)
    (hat : (lastPiece a).head? = some '@') {tree : RuleTree}
    (hparse : parse scope (a ++ '{' :: b) = .ok tree) :
    ∃ d rule, Draft.readAll scope {} (chunks a) = .ok d ∧ d.level = .body ∧
      Opens scope a d rule := by
  obtain ⟨d, d', hread, hopen⟩ := exists_openBlock_eq_ok h hparse
  have hlevel : d.level = .body := by
    by_contra hlevel
    rw [Draft.openBlock_of_atRule (mt Draft.level_eq_body_iff.2 hlevel) hat] at hopen
    cases hopen
  -- The header is not refused, so it starts with a known keyword.
  obtain ⟨rule, hprefix⟩ : ∃ rule : AtRule, rule.keyword <+: lastPiece a := by
    by_contra hnone
    rw [(Draft.openBlock_eq_disallowed_iff hlevel hat).2 (not_exists.1 hnone)] at hopen
    cases hopen
  have hclassifies := classifies_isPrefix (b := b) h hread hlevel hat
  exact ⟨d, rule, hread, hlevel, (hclassifies.opens_iff rule).2 hprefix⟩

end Source

/-- Where a header that starts with an at sign stands in front of an opening brace, the source is
faulty if the brace stands in a rule set or an animation. In the source itself or a group, a block
is opened or refused by what the keyword of the header starts with, which is the same as going by
the whole keyword exactly if it does not go on behind a known one. So every block that an accepted
source opens in this way has a keyword that starts with a known one. It makes no difference which
further characters are taken for characters of names. -/
theorem atRules_classified {isName : Char → Bool}
    (hname : ∀ c, Header.isNameChar c = true → isName c = true) {scope a b : Text}
    (houtside : Text.OutsideComments a ('{' :: b))
    (hat : (Source.lastPiece a).head? = some '@') :
    (∀ d, Draft.readAll scope {} (Source.chunks a) = .ok d →
      (d.level ≠ .body →
        parse scope (a ++ '{' :: b) = .error ⟨.unexpectedAtRule (Source.lastPiece a), a.length,
          Text.locate (a ++ '{' :: b) a.length⟩) ∧
      (d.level = .body →
        Source.Classifies scope a b d
            (fun rule => rule.keyword <+: Header.keyword isName (Source.lastPiece a)) ∧
          (Source.Classifies scope a b d
              (fun rule => rule.keyword = Header.keyword isName (Source.lastPiece a)) ↔
            ∀ rule : AtRule, rule.keyword <+: Header.keyword isName (Source.lastPiece a) →
              rule.keyword = Header.keyword isName (Source.lastPiece a)))) ∧
    ∀ tree, parse scope (a ++ '{' :: b) = .ok tree →
      ∃ d rule, Draft.readAll scope {} (Source.chunks a) = .ok d ∧ d.level = .body ∧
        Source.Opens scope a d rule ∧
        rule.keyword <+: Header.keyword isName (Source.lastPiece a) := by
  have hphase : (Source.pendingAt a ('{' :: b)).phase = .outside :=
    Source.outside_pendingAt_iff.2 houtside
  change (Source.pendingAt a ['{']).phase = .outside at hphase
  have hclassifies {d : Draft} (hread : Draft.readAll scope {} (Source.chunks a) = .ok d)
      (hlevel : d.level = .body) : Source.Classifies scope a b d
        (fun rule => rule.keyword <+: Header.keyword isName (Source.lastPiece a)) := by
    simp only [AtRule.isPrefix_keyword_iff hname]
    exact Source.classifies_isPrefix hphase hread hlevel hat
  refine ⟨fun d hread => ⟨fun hlevel => ?_, fun hlevel => ⟨hclassifies hread hlevel, ?_⟩⟩, ?_⟩
  · rw [Source.parse_openBrace_eq_error_iff hphase hread]
    exact Draft.openBlock_of_atRule (mt Draft.level_eq_body_iff.2 hlevel) hat
  · constructor
    · intro hwhole rule hprefix
      exact (hwhole.opens_iff rule).1 (((hclassifies hread hlevel).opens_iff rule).2 hprefix)
    · intro hwhole
      have hsame :
          (fun rule : AtRule => rule.keyword <+: Header.keyword isName (Source.lastPiece a)) =
            fun rule => rule.keyword = Header.keyword isName (Source.lastPiece a) :=
        funext fun rule => propext ⟨hwhole rule, fun h => h ▸ List.prefix_rfl⟩
      exact hsame ▸ hclassifies hread hlevel
  · intro tree hparse
    obtain ⟨d, rule, hread, hlevel, hopens⟩ := Source.exists_opens hphase hat hparse
    exact ⟨d, rule, hread, hlevel, hopens, ((hclassifies hread hlevel).opens_iff rule).1 hopens⟩

theorem atRules_classified_group :
    Source.Classifies ['k'] "@supports x\x7b/*\x7b*/@media\n(y)".toList "a:b\x7d\x7d".toList
        (({} : Draft).enter ['k'] (.group .supports ['x']))
        (fun rule => rule.keyword = "@media".toList) ∧
      ∃ d rule, Source.Opens ['k'] "@supports x\x7b/*\x7b*/@media\n(y)".toList d rule ∧
        rule.keyword <+: "@media".toList := by
  have houtside : Text.OutsideComments "@supports x\x7b/*\x7b*/@media\n(y)".toList
      ('{' :: "a:b\x7d\x7d".toList) := Source.outside_pendingAt_iff.1 (by decide +kernel)
  have hread : Draft.readAll ['k'] {}
      (Source.chunks "@supports x\x7b/*\x7b*/@media\n(y)".toList) =
      .ok (({} : Draft).enter ['k'] (.group .supports ['x'])) := rfl
  have hparse : parse ['k'] ("@supports x\x7b/*\x7b*/@media\n(y)".toList ++
      '{' :: "a:b\x7d\x7d".toList) = .ok ⟨[.group .supports ['x'] [.group .media "(y)".toList
        [.ruleSet ⟨".k".toList, ⟨[(['a'], ['b'])]⟩⟩]]], ∅⟩ := by decide +kernel
  have hkeyword : Header.keyword Header.isNameChar
      (Source.lastPiece "@supports x\x7b/*\x7b*/@media\n(y)".toList) = "@media".toList := by
    decide +kernel
  have hwhole : ∀ rule : AtRule, rule.keyword <+: "@media".toList →
      rule.keyword = "@media".toList := by
    rintro (_ | _ | _) <;> decide
  obtain ⟨hfront, haccepted⟩ :=
    @atRules_classified Header.isNameChar (fun _ hc => hc) ['k'] _ _ houtside (by decide +kernel)
  rw [hkeyword] at hfront haccepted
  obtain ⟨d, rule, -, -, hopens, hprefix⟩ := haccepted _ hparse
  exact ⟨((hfront _ hread).2 rfl).2.2 hwhole, d, rule, hopens, hprefix⟩

/-- A keyword that goes on behind a known one opens a block, though it is not known as a whole. -/
theorem not_classifies_mediaprint :
    parse ['k'] "@mediaprint\x7ba:b\x7d".toList =
        .ok ⟨[.group .media "print".toList [.ruleSet ⟨".k".toList, ⟨[(['a'], ['b'])]⟩⟩]], ∅⟩ ∧
      Draft.readAll ['k'] {} (Source.chunks "@mediaprint".toList) = .ok {} ∧
      Header.keyword Header.isNameChar (Source.lastPiece "@mediaprint".toList) =
        "@mediaprint".toList ∧
      ¬ Source.Classifies ['k'] "@mediaprint".toList "a:b\x7d".toList {}
        (fun rule => rule.keyword = "@mediaprint".toList) := by
  have hparse : parse ['k'] "@mediaprint\x7ba:b\x7d".toList =
      .ok ⟨[.group .media "print".toList [.ruleSet ⟨".k".toList, ⟨[(['a'], ['b'])]⟩⟩]], ∅⟩ := by
    decide +kernel
  refine ⟨hparse, rfl, by decide +kernel, fun h => ?_⟩
  have hunknown : ∀ rule : AtRule, rule.keyword ≠ "@mediaprint".toList := by
    rintro (_ | _ | _) <;> decide
  cases hparse.symm.trans (h.disallowed_iff.2 hunknown)

end ScopedStyles
