import ScopedStyles.Delimiter
import ScopedStyles.FlatRule.Part

/-!
# The grammar of flat rules

A flat rule is a tree over tokens. A text derives from it if the tokens can be laid out in the text
one after the other, with nothing but ignored characters before each token and at the end. The
grammar says what each token may look like, but not where it ends: a blank may belong to a token or
stand after it, and one text may derive from several flat rules.

## Main definitions

* `Terminal`, `Terminal.Matches` — the kinds of tokens, and which texts are tokens of a kind.
* `FlatRule.tokens` — the tokens of a flat rule, from left to right.
* `Laid`, `Spread` — tokens laid out in a text.
* `FlatRule.Derives` — the grammar.
-/

namespace ScopedStyles

/-- A text whose first character is in one class and whose other characters are in another. -/
def Text.Spelled (first others : Char → Bool) : Text → Prop
  | [] => False
  | c :: t => first c = true ∧ ∀ d ∈ t, others d = true

/-- The kinds of tokens. -/
inductive Terminal
  /-- A text that stands for itself. -/
  | literal (t : Text)
  | groupKeyword
  | selector
  | property
  | value
  | name
  | query
  deriving DecidableEq, Repr

namespace Terminal

/-- Whether a character is no delimiter. -/
def isInner (c : Char) : Bool :=
  (Delimiter.ofChar? c).isNone

/-- Whether a character is neither a delimiter nor a blank. -/
def isVisible (c : Char) : Bool :=
  isInner c && !Text.isBlank c

/-- Which texts are tokens of a kind. -/
def Matches : Terminal → Text → Prop
  | literal t => (· = t)
  | groupKeyword => fun token => ∃ type : GroupType, token = type.keyword
  | selector => Text.Spelled (fun c => isVisible c && c != '@') isInner
  | property =>
    Text.Spelled (fun c => isVisible c && c != '@' && c != ':') fun c => isInner c && c != ':'
  | value => Text.Spelled isInner isInner
  | name => Text.Spelled isVisible isVisible
  | query => Text.Spelled isVisible isInner

end Terminal

/-- A text as a token of some kind. -/
structure Token where
  terminal : Terminal
  text : Text
  deriving DecidableEq, Repr

namespace Token

/-- The token of a text that stands for itself. -/
def literal (t : Text) : Token :=
  ⟨.literal t, t⟩

/-- Whether a text may be a token of its kind. -/
def IsValid (token : Token) : Prop :=
  token.terminal.Matches token.text

end Token

/-! ## The tokens of a rule -/

/-- The tokens of a declaration. -/
def StyleRule.declarationTokens (declaration : Text × Text) : List Token :=
  [⟨.property, declaration.1⟩, .literal [':'], ⟨.value, declaration.2⟩, .literal [';']]

/-- The tokens of a style rule. -/
def StyleRule.tokens (rule : StyleRule) : List Token :=
  [⟨.selector, rule.selector⟩, .literal ['{']] ++
    rule.declarations.flatMap declarationTokens ++ [.literal ['}']]

mutual

/-- The tokens of a flat rule. -/
def FlatRule.tokens : FlatRule → List Token
  | .style rule => rule.tokens
  | .keyframes name steps =>
    [.literal keyframesKeyword, ⟨.name, name⟩, .literal ['{']] ++
      steps.flatMap StyleRule.tokens ++ [.literal ['}']]
  | .group type query rules =>
    [⟨.groupKeyword, type.keyword⟩, ⟨.query, query⟩, .literal ['{']] ++
      FlatRule.bodyTokens rules ++ [.literal ['}']]

/-- The tokens of some flat rules, one after the other. -/
def FlatRule.bodyTokens : List FlatRule → List Token
  | [] => []
  | rule :: rules => rule.tokens ++ FlatRule.bodyTokens rules

end

/-! ## Layout -/

/-- A text of characters that are ignored in front of a token. -/
def Text.Ignored (gap : Text) : Prop :=
  ∀ c ∈ gap, Part.isIgnored c = true

/-- Valid tokens one after the other, each with some ignored characters in front of it. -/
inductive Laid : List Token → Text → Prop
  | nil : Laid [] []
  | cons {gap t : Text} {token : Token} {tokens : List Token} (hgap : gap.Ignored)
      (htoken : token.IsValid) (h : Laid tokens t) :
      Laid (token :: tokens) (gap ++ (token.text ++ t))

/-- Tokens are laid out in a text, with ignored characters at its end. -/
def Spread (tokens : List Token) (t : Text) : Prop :=
  ∃ body gap : Text, t = body ++ gap ∧ Laid tokens body ∧ gap.Ignored

/-- A text derives from a flat rule. -/
def FlatRule.Derives (flat : FlatRule) (t : Text) : Prop :=
  Spread flat.tokens t

/-! ## Lemmas on tokens -/

theorem Terminal.isInner_iff {c : Char} : isInner c = true ↔ Delimiter.ofChar? c = none := by
  simp [isInner]

theorem Terminal.isVisible_iff {c : Char} :
    isVisible c = true ↔ Delimiter.ofChar? c = none ∧ Text.isBlank c = false := by
  simp [isVisible, isInner]

theorem Text.spelled_iff {first others : Char → Bool} {t : Text} :
    t.Spelled first others ↔
      ∃ c rest, t = c :: rest ∧ first c = true ∧ ∀ d ∈ rest, others d = true := by
  constructor
  · cases t with
    | nil => rintro ⟨⟩
    | cons c rest => exact fun h => ⟨c, rest, rfl, h⟩
  · rintro ⟨c, rest, rfl, h⟩
    exact h

theorem Text.spelled_self_iff {p : Char → Bool} {t : Text} :
    t.Spelled p p ↔ t ≠ [] ∧ ∀ c ∈ t, p c = true := by
  cases t with
  | nil => simp [Spelled]
  | cons c rest => simp [Spelled]

theorem Text.Spelled.ne_nil {first others : Char → Bool} {t : Text} (h : t.Spelled first others) :
    t ≠ [] := by
  rintro rfl
  exact h

/-! ## Lemmas on layouts -/

@[simp] theorem Text.ignored_nil : Text.Ignored [] := by
  simp [Text.Ignored]

theorem Laid.isValid {tokens : List Token} {t : Text} (h : Laid tokens t) :
    ∀ token ∈ tokens, token.IsValid := by
  induction h with
  | nil => simp
  | cons _ htoken _ ih => exact List.forall_mem_cons.2 ⟨htoken, ih⟩

theorem Spread.isValid {tokens : List Token} {t : Text} (h : Spread tokens t) :
    ∀ token ∈ tokens, token.IsValid := by
  obtain ⟨body, gap, -, hbody, -⟩ := h
  exact hbody.isValid

@[simp] theorem laid_nil_iff {t : Text} : Laid [] t ↔ t = [] := by
  constructor
  · rintro ⟨⟩
    rfl
  · rintro rfl
    exact .nil

theorem laid_cons_iff {token : Token} {tokens : List Token} {t : Text} :
    Laid (token :: tokens) t ↔ ∃ gap rest : Text, t = gap ++ (token.text ++ rest) ∧
      gap.Ignored ∧ token.IsValid ∧ Laid tokens rest := by
  constructor
  · rintro ⟨⟩
    next gap rest hgap htoken h => exact ⟨gap, rest, rfl, hgap, htoken, h⟩
  · rintro ⟨gap, rest, rfl, hgap, htoken, h⟩
    exact .cons hgap htoken h

theorem laid_append_iff {a b : List Token} {t : Text} :
    Laid (a ++ b) t ↔ ∃ t₁ t₂ : Text, t = t₁ ++ t₂ ∧ Laid a t₁ ∧ Laid b t₂ := by
  induction a generalizing t with
  | nil =>
    constructor
    · intro h
      exact ⟨[], t, rfl, .nil, h⟩
    · rintro ⟨t₁, t₂, rfl, h₁, h₂⟩
      obtain rfl := laid_nil_iff.1 h₁
      exact h₂
  | cons token a ih =>
    simp only [List.cons_append, laid_cons_iff, ih]
    constructor
    · rintro ⟨gap, _, rfl, hgap, htoken, t₁, t₂, rfl, h₁, h₂⟩
      exact ⟨gap ++ (token.text ++ t₁), t₂, by simp, ⟨gap, t₁, rfl, hgap, htoken, h₁⟩, h₂⟩
    · rintro ⟨_, t₂, rfl, ⟨gap, t₁, rfl, hgap, htoken, h₁⟩, h₂⟩
      exact ⟨gap, t₁ ++ t₂, by simp, hgap, htoken, t₁, t₂, rfl, h₁, h₂⟩

@[simp] theorem spread_nil_iff {t : Text} : Spread [] t ↔ t.Ignored := by
  constructor
  · rintro ⟨body, gap, rfl, hbody, hgap⟩
    obtain rfl := laid_nil_iff.1 hbody
    exact hgap
  · intro h
    exact ⟨[], t, rfl, .nil, h⟩

theorem spread_cons_iff {token : Token} {tokens : List Token} {t : Text} :
    Spread (token :: tokens) t ↔ ∃ gap rest : Text, t = gap ++ (token.text ++ rest) ∧
      gap.Ignored ∧ token.IsValid ∧ Spread tokens rest := by
  constructor
  · rintro ⟨_, after, rfl, hlaid, hafter⟩
    obtain ⟨gap, rest, rfl, hgap, htoken, hrest⟩ := laid_cons_iff.1 hlaid
    exact ⟨gap, rest ++ after, by simp, hgap, htoken, rest, after, rfl, hrest, hafter⟩
  · rintro ⟨gap, _, rfl, hgap, htoken, rest, after, rfl, hrest, hafter⟩
    exact ⟨gap ++ (token.text ++ rest), after, by simp, .cons hgap htoken hrest, hafter⟩

/-- The blanks after the last token stand in front of a literal that follows. -/
theorem laid_concat_literal_iff {tokens : List Token} {literal t : Text} :
    Laid (tokens ++ [.literal literal]) t ↔
      ∃ rest : Text, t = rest ++ literal ∧ Spread tokens rest := by
  rw [laid_append_iff]
  constructor
  · rintro ⟨body, _, rfl, hbody, hliteral⟩
    obtain ⟨gap, _, rfl, hgap, -, hnil⟩ := laid_cons_iff.1 hliteral
    obtain rfl := laid_nil_iff.1 hnil
    exact ⟨body ++ gap, by simp [Token.literal], body, gap, rfl, hbody, hgap⟩
  · rintro ⟨_, rfl, body, gap, rfl, hbody, hgap⟩
    exact ⟨body, gap ++ literal, by simp, hbody,
      laid_cons_iff.2 ⟨gap, [], by simp [Token.literal], hgap, rfl, .nil⟩⟩

end ScopedStyles
