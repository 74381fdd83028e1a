import ScopedStyles.Proofs.Grammar.Aligned
import ScopedStyles.Proofs.Source.Concatenated

/-!
# Two sources in a row

If a source is read and nothing is pending at its end, another one can be put behind it. The two
contents then stand in a row, so the rules of the two sources do too. Only the declarations outside
all blocks are gathered from both into one rule set, which comes last. A fault of the second source
stays the same fault, further on by the length of the first.

## Main definitions

* `Content.append` — two contents in a row.
* `RuleTree.others`, `RuleTree.own` — the rules of a tree apart from the rule set for the scope's
  class, and what that one declares.
* `RuleTree.join` — the rule tree of two sources in a row.

## Main statements

* `Derives.append` — what two contents in a row are derived from.
* `Content.tree_append` — the rule tree of two contents in a row.
* `parse_append` — reading two sources in a row.
-/

namespace ScopedStyles

/-! ## Contents in a row -/

namespace Content

/-- Two contents in a row. -/
def append : Content → Content → Content
  | nil, c => c
  | declaration property value rest, c => declaration property value (rest.append c)
  | block head inner rest, c => block head inner (rest.append c)

theorem declarations_append (a b : Content) :
    (a.append b).declarations = a.declarations ++ b.declarations := by
  induction a with
  | nil => rfl
  | declaration property value rest ih => simp [append, declarations, ih]
  | block head inner rest _ ih => cases head <;> simp [append, declarations, ih]

theorem rules_append (scope : Text) (a b : Content) :
    (a.append b).rules scope = a.rules scope ++ b.rules scope := by
  induction a with
  | nil => rfl
  | declaration property value rest ih => simp [append, rules, ih]
  | block head inner rest _ ih => cases head <;> simp [append, rules, ih]

theorem names_append (a b : Content) : (a.append b).names = a.names ++ b.names := by
  induction a with
  | nil => rfl
  | declaration property value rest ih => simp [append, names, ih]
  | block head inner rest _ ih => cases head <;> simp [append, names, ih]

end Content

/-- A content can go on where another one has ended with a delimiter. -/
theorem Derives.append {level : Level} {a b : Content} {pieces pieces' : List Piece} {last : Text}
    (ha : Derives level a pieces []) (hb : Derives level b pieces' last) :
    Derives level (a.append b) (pieces ++ pieces') last := by
  generalize hend : ([] : Text) = text at ha
  induction ha with
  | nil => exact hb
  | last h => exact (not_declares_nil _ _ (hend ▸ h)).elim
  | declaration h _ ih => exact .declaration h (ih hb hend)
  | block h hholds hinner _ _ ih =>
    rw [List.cons_append, List.append_assoc, List.cons_append]
    exact .block h hholds hinner (ih hb hend)

/-- Behind a source that is empty or ends at a delimiter, a second one has the same pieces as on its
own. -/
theorem Source.pieces_append {s : Text} (hend : s = [] ∨ EndsAtDelimiter s) (t : Text) :
    pieces (s ++ t) = pieces s ++ pieces t := by
  rw [pieces, chunks_append hend, List.map_append, List.map_map]
  rfl

theorem Source.lastPiece_append {s : Text} (hend : s = [] ∨ EndsAtDelimiter s) (t : Text) :
    lastPiece (s ++ t) = lastPiece t := by
  rw [lastPiece, remainder_append hend, lastPiece]

theorem Source.Says.append {s t : Text} {a b : Content} (ha : Source.Says s a)
    (hb : Source.Says t b) (hend : s = [] ∨ EndsAtDelimiter s) :
    Source.Says (s ++ t) (a.append b) := by
  have hlast : lastPiece s = [] := by rw [lastPiece, remainder_eq_nil hend]; rfl
  rw [Says, hlast] at ha
  rw [Says, pieces_append hend, lastPiece_append hend]
  exact Derives.append ha hb

/-! ## The rule set for the scope's class -/

theorem Selector.length_lt_attach (outer part : Text) :
    outer.length < (attach outer part).length := by
  unfold attach
  split
  · next h =>
    obtain ⟨rest, rfl⟩ : ∃ rest, part = ':' :: rest := by
      cases part <;> simp_all
    simp
  · simp

theorem RuleSet.selector_of_mem_kept {selector : Text} {declarations : List (Text × Text)}
    {rule : RuleSet} (h : rule ∈ kept selector declarations) : rule.selector = selector := by
  rw [kept] at h
  split at h
  · cases h
  · rw [List.mem_singleton.1 h]

/-- Whether a rule is a rule set for the scope's class alone. -/
def Rule.isOwn (scope : Text) : Rule → Bool
  | .ruleSet rule => rule.selector = Selector.ofScope scope
  | .keyframes _ _ | .group _ _ _ => false

namespace RuleTree

variable (scope : Text)

/-- The rules of a tree, apart from the rule set for the scope's class. -/
def others (tree : RuleTree) : List Rule :=
  tree.rules.filter (!·.isOwn scope)

/-- What is declared for the scope's class. -/
def own (tree : RuleTree) : Dictionary :=
  match tree.rules.find? (·.isOwn scope) with
  | some (.ruleSet rule) => rule.declarations
  | _ => ∅

/-- The rule tree of two sources in a row. -/
def join (a b : RuleTree) : RuleTree where
  rules := a.others scope ++ b.others scope ++
    Body.ownRules scope { declarations := (a.own scope).update (b.own scope) }
  keyframes := a.keyframes.update b.keyframes

end RuleTree

namespace Content

variable {scope : Text}

theorem length_lt_of_mem_ruleSets {c : Content} {outer : Text} {rule : RuleSet}
    (h : rule ∈ c.ruleSets outer) : outer.length < rule.selector.length := by
  induction c generalizing outer with
  | nil => cases h
  | declaration property value rest ih => exact ih h
  | block head inner rest ihinner ihrest =>
    cases head with
    | selector part =>
      have hpart := Selector.length_lt_attach outer part
      rw [ruleSets, List.mem_append, List.mem_append] at h
      rcases h with h | h | h
      · exact hpart.trans (ihinner h)
      · rwa [RuleSet.selector_of_mem_kept h]
      · exact ihrest h
    | keyframes _ | group _ _ => exact ihrest h

theorem isOwn_of_mem_rules {c : Content} {rule : Rule} (h : rule ∈ c.rules scope) :
    rule.isOwn scope = false := by
  induction c with
  | nil => cases h
  | declaration property value rest ih => exact ih h
  | block head inner rest _ ih =>
    cases head with
    | selector part =>
      rcases List.mem_append.1 h with h | h
      · obtain ⟨rule, hrule, rfl⟩ := List.mem_map.1 h
        have hlength := length_lt_of_mem_ruleSets hrule
        rw [Rule.isOwn, decide_eq_false_iff_not]
        intro heq
        rw [heq] at hlength
        exact lt_irrefl _ hlength
      · exact ih h
    | keyframes name | group type query =>
      rcases List.mem_cons.1 h with rfl | h
      · rfl
      · exact ih h

theorem others_tree (c : Content) : (c.tree scope).others scope = c.rules scope := by
  have hown : ∀ rule ∈ c.own scope, rule.isOwn scope = true := by
    intro rule hrule
    obtain ⟨rule, hkept, rfl⟩ := List.mem_map.1 hrule
    simpa [Rule.isOwn] using RuleSet.selector_of_mem_kept hkept
  rw [RuleTree.others, tree, List.filter_append,
    List.filter_eq_self.2 fun rule hrule => by simp [isOwn_of_mem_rules hrule],
    List.filter_eq_nil_iff.2 fun rule hrule => by simp [hown rule hrule], List.append_nil]

theorem own_tree (c : Content) : (c.tree scope).own scope = .ofList c.declarations := by
  have hnone : (c.rules scope).find? (·.isOwn scope) = none :=
    List.find?_eq_none.2 fun rule hrule => by simp [isOwn_of_mem_rules hrule]
  rw [RuleTree.own, tree, List.find?_append, hnone, Option.none_or, own, RuleSet.kept]
  by_cases h : c.declarations = []
  · rw [if_pos h, h]
    rfl
  · simp [h, Rule.isOwn]

theorem own_append (a b : Content) :
    (a.append b).own scope = Body.ownRules scope
      { declarations := ((a.tree scope).own scope).update ((b.tree scope).own scope) } := by
  rw [own_tree, own_tree, ← Dictionary.ofList_append, ← declarations_append]
  exact (Body.ownRules_extend scope (a.append b)).symm

/-- The rule tree of two contents in a row. -/
theorem tree_append (a b : Content) :
    (a.append b).tree scope = (a.tree scope).join scope (b.tree scope) := by
  have hkeyframes : ((a.append b).tree scope).keyframes =
      (a.tree scope).keyframes.update (b.tree scope).keyframes := by
    simp only [tree, ← Dictionary.ofList_append, identifiers, names_append, List.map_append]
  rw [RuleTree.join, others_tree, others_tree, ← own_append, ← hkeyframes, ← rules_append]
  rfl

end Content

/-! ## Sources in a row -/

variable {scope s t : Text}

/-- Chunks that stand further on are read in the same way, and a fault is found further on. -/
theorem Draft.readAll_shift (n : Nat) (d : Draft) (chunks : List Chunk) :
    d.readAll scope (chunks.map (Chunk.shift n)) =
      (d.readAll scope chunks).mapError fun failure => (failure.1, n + failure.2) := by
  induction chunks generalizing d with
  | nil => rfl
  | cons chunk chunks ih =>
    simp only [List.map_cons, readAll, Chunk.shift]
    split
    · exact ih _
    · rfl

/-- At the end of a source that is read, a draft stands where it has stood at the beginning. -/
theorem Draft.exists_aligned {tree : RuleTree} (h : parse scope s = .ok tree) :
    ∃ d, readAll scope {} (Source.chunks s) = .ok d ∧ Aligned {} d := by
  obtain ⟨d, hread, hfinish⟩ := parse_eq_ok_iff.1 h
  refine ⟨d, hread, ?_⟩
  obtain ⟨-, haround, -⟩ := finish_eq_ok hfinish
  obtain ⟨body, place, groups, keyframes⟩ := d
  rcases place with _ | _ | ⟨_, _, _ | _⟩
  · exact ⟨rfl, haround.symm⟩
  all_goals simp [around] at haround

/-- A fault stays the same behind a source that is read. -/
theorem Source.tree_append_error {tree : RuleTree} {fault : Fault} {offset : Nat}
    (hs : parse scope s = .ok tree) (hend : s = [] ∨ EndsAtDelimiter s)
    (ht : Source.tree scope t = .error (fault, offset)) :
    Source.tree scope (s ++ t) = .error (fault, s.length + offset) := by
  obtain ⟨d, hread, haligned⟩ := Draft.exists_aligned hs
  have hall : Draft.SameEnd (Draft.readAll scope {} (chunks t)) (d.readAll scope (chunks t)) :=
    haligned.readAll (chunks t)
  rw [tree_eq_error_iff, chunks_append hend, remainder_append hend, Draft.readAll_append, hread,
    Except.bind, Draft.readAll_shift, List.length_append]
  generalize d.readAll scope (chunks t) = result at hall ⊢
  rcases tree_eq_error_iff.1 ht with htread | ⟨rfl, d₁, htread, hfinish⟩
  · rw [htread] at hall
    cases hall
    exact .inl rfl
  · rw [htread] at hall
    cases hall with
    | ok haligned => exact .inr ⟨rfl, _, rfl, haligned.finish_error hfinish⟩

/-- A source that is read, and that is empty or ends at a delimiter, makes no difference to how a
second one behind it is read. A fault of the second one is found further on by the length of the
first. Otherwise the rules of the two stand in a row, but what both declare outside all blocks is
gathered into one rule set at the end, and the table of the first is updated by that of the
second. -/
theorem parse_append {tree : RuleTree} (hs : parse scope s = .ok tree)
    (hend : s = [] ∨ Source.EndsAtDelimiter s) (t : Text) :
    (∀ e, parse scope t = .error e → parse scope (s ++ t) =
      .error ⟨e.fault, s.length + e.offset, (s ++ t).locate (s.length + e.offset)⟩) ∧
    ∀ tree', parse scope t = .ok tree' → parse scope (s ++ t) = .ok (tree.join scope tree') := by
  constructor
  · intro e he
    unfold parse at he
    cases htree : Source.tree scope t with
    | ok tree' => simp [htree, Except.mapError] at he
    | error failure =>
      rw [htree] at he
      obtain rfl := Except.error.inj he
      rw [parse, Source.tree_append_error hs hend htree]
      rfl
  · intro tree' ht
    obtain ⟨a, ha⟩ := exists_says_of_parse hs
    obtain ⟨b, hb⟩ := exists_says_of_parse ht
    obtain rfl := Except.ok.inj (hs.symm.trans ha.parse_eq)
    obtain rfl := Except.ok.inj (ht.symm.trans hb.parse_eq)
    rw [(ha.append hb hend).parse_eq, Content.tree_append]

theorem parse_append_scattered :
    Source.EndsAtDelimiter "x:y;p{x:z}".toList ∧
    parse ['k'] ("x:y;p{x:z}".toList ++ "w:v;@keyframes m{}x:u".toList) = .ok
      ⟨[.ruleSet ⟨".k p".toList, ⟨[(['x'], ['z'])]⟩⟩, .keyframes "k-m".toList [],
        .ruleSet ⟨".k".toList, ⟨[(['x'], ['u']), (['w'], ['v'])]⟩⟩], ⟨[(['m'], "k-m".toList)]⟩⟩ ∧
    parse ['k'] ("x:y;p{x:z}".toList ++ "\n;".toList) =
      .error ⟨.invalidDeclaration [], 11, ⟨2, 1⟩⟩ := by
  have hs : parse ['k'] "x:y;p{x:z}".toList = .ok
      ⟨[.ruleSet ⟨".k p".toList, ⟨[(['x'], ['z'])]⟩⟩,
        .ruleSet ⟨".k".toList, ⟨[(['x'], ['y'])]⟩⟩], ∅⟩ := by decide +kernel
  have hend : Source.EndsAtDelimiter "x:y;p{x:z}".toList := by decide +kernel
  have ht : parse ['k'] "w:v;@keyframes m{}x:u".toList = .ok
      ⟨[.keyframes "k-m".toList [], .ruleSet ⟨".k".toList, ⟨[(['w'], ['v']), (['x'], ['u'])]⟩⟩],
        ⟨[(['m'], "k-m".toList)]⟩⟩ := by decide +kernel
  have he : parse ['k'] "\n;".toList = .error ⟨.invalidDeclaration [], 1, ⟨2, 1⟩⟩ := by
    decide +kernel
  refine ⟨hend, ((parse_append hs (.inr hend) _).2 _ ht).trans ?_,
    ((parse_append hs (.inr hend) _).1 _ he).trans ?_⟩
  · decide +kernel
  · decide +kernel

end ScopedStyles
