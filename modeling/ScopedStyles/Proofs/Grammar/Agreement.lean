import ScopedStyles.Proofs.Grammar.Fill
import ScopedStyles.Proofs.Grammar.Unambiguous

/-!
# Reading follows the grammar

Reading a source keeps the blocks that are open on a stack, and the grammar speaks of blocks inside
one another. Both say the same: a source is read exactly if it has a content, and then its rule tree
is the one of the content.

## Main statements

* `Derives.readAll` — the pieces of a content fill the draft with it.
* `Draft.spells_of_readAll` — pieces that are read to the end of the source spell contents, one for
  each block that is open.
* `parse_agrees` — reading and the grammar agree.
-/

namespace ScopedStyles

variable {scope : Text}

/-! ## From contents to drafts -/

namespace Draft

@[simp] theorem around_fill (d : Draft) (c : Content) : (d.fill scope c).around = d.around := by
  obtain ⟨body, place, groups, keyframes⟩ := d
  rcases place with _ | _ | ⟨_, _, _ | _⟩ <;> rfl

theorem readAll_cons {d d' : Draft} {chunk : Chunk}
    (h : d.read scope chunk.text chunk.delimiter = .ok d') (chunks : List Chunk) :
    d.readAll scope (chunk :: chunks) = d'.readAll scope chunks := by
  rw [readAll, h]

/-- A closing brace inside a block ends the last declaration and the block. -/
theorem read_closeBrace {d d' : Draft} {text : Text} (h : d.around ≠ [])
    (hlast : d.declareLast text = .ok d') :
    d.read scope text .closeBrace = .ok (d'.closeBlock scope) := by
  rw [read, atTop_eq, if_neg (by simpa using h), hlast]
  rfl

end Draft

/-- The pieces of a content fill the draft with it, up to a last declaration. -/
theorem Derives.readAll {level : Level} {c : Content} {pieces : List Piece} {last : Text}
    (h : Derives level c pieces last) (scope : Text) {d : Draft} {chunks : List Chunk}
    (hlevel : d.level = level) (hchunks : chunks.map Chunk.piece = pieces) :
    ∃ d', d.readAll scope chunks = .ok d' ∧ d'.around = d.around ∧
      ∀ text, text.trim = last → d'.declareLast text = .ok (d.fill scope c) := by
  induction h generalizing d chunks with
  | nil =>
    obtain rfl := List.map_eq_nil_iff.1 hchunks
    refine ⟨d, rfl, rfl, fun text htext => ?_⟩
    exact Draft.declareLast_eq_ok_iff.2 (.inl ⟨htext, by simp⟩)
  | last hdeclares =>
    obtain rfl := List.map_eq_nil_iff.1 hchunks
    refine ⟨d, rfl, rfl, ?_⟩
    rintro text rfl
    exact Draft.declareLast_eq_ok_iff.2 (.inr ⟨_, _, hdeclares, by simp [Draft.fill_declaration]⟩)
  | @declaration level rest pieces text property value last hdeclares _ ih =>
    obtain ⟨chunk, chunks, rfl, hpiece, hrest⟩ := List.map_eq_cons_iff.1 hchunks
    obtain ⟨rfl, hdelimiter⟩ := Piece.mk.inj hpiece
    have hinserted : (d.insert property value).level = level := by rw [Draft.level_insert, hlevel]
    obtain ⟨d', hread, haround, hlast⟩ := ih hinserted hrest
    refine ⟨d', ?_, by simpa using haround, by rwa [Draft.fill_declaration]⟩
    have hdeclared : d.read scope chunk.text chunk.delimiter = .ok (d.insert property value) := by
      rw [hdelimiter]
      exact Draft.declare_eq_ok_iff.2 ⟨_, _, hdeclares, rfl⟩
    rw [Draft.readAll_cons hdeclared, hread]
  | @block level inside head inner rest innerPieces pieces text innerLast last hhead hholds _ _
      ihinner ihrest =>
    subst hlevel
    obtain ⟨opening, chunks, rfl, hopening, hchunks⟩ := List.map_eq_cons_iff.1 hchunks
    obtain ⟨innerChunks, chunks, rfl, hinner, hchunks⟩ := List.map_eq_append_iff.1 hchunks
    obtain ⟨closing, chunks, rfl, hclosing, hrest⟩ := List.map_eq_cons_iff.1 hchunks
    obtain ⟨rfl, hopen⟩ := Piece.mk.inj hopening
    obtain ⟨htext, hclose⟩ := Piece.mk.inj hclosing
    obtain ⟨d₁, hread₁, haround₁, hlast₁⟩ := ihinner (Draft.level_enter hholds) hinner
    rw [Draft.around_enter hholds] at haround₁
    have hfull : ((d.enter scope head).fill scope inner).around = d.level :: d.around := by
      rw [Draft.around_fill, Draft.around_enter hholds]
    obtain ⟨d₂, hread₂, haround₂, hlast₂⟩ := ihrest (Draft.level_closeBlock hfull) hrest
    rw [Draft.fill_block hholds]
    refine ⟨d₂, ?_, haround₂.trans (Draft.around_closeBlock hfull), hlast₂⟩
    have hopened : d.read scope opening.text opening.delimiter = .ok (d.enter scope head) := by
      rw [hopen]
      exact Draft.openBlock_eq_ok_iff.2 ⟨head, inside, hhead, hholds, rfl⟩
    have hclosed : d₁.read scope closing.text closing.delimiter =
        .ok (((d.enter scope head).fill scope inner).closeBlock scope) := by
      rw [hclose]
      exact Draft.read_closeBrace (by simp [haround₁]) (hlast₁ _ htext)
    rw [Draft.readAll_cons hopened, Draft.readAll_append, hread₁]
    exact (Draft.readAll_cons hclosed chunks).trans hread₂

theorem Draft.finish_fill {d : Draft} {text : Text} {c : Content} (h : d.around = [])
    (hlast : d.declareLast text = .ok (fill scope {} c)) :
    d.finish scope text = .ok (c.tree scope) := by
  rw [finish, atTop_eq, h, hlast]
  simp [fill, Except.map, Body.ownRules_extend, Content.tree, Dictionary.ofList]

/-- A source with a content is read, and its rule tree is the one of the content. -/
theorem Source.Says.parse_eq {source : Text} {c : Content} (h : Source.Says source c) :
    parse scope source = .ok (c.tree scope) := by
  obtain ⟨d, hread, haround, hlast⟩ := Derives.readAll h scope (d := {}) rfl rfl
  exact parse_eq_ok_iff.2 ⟨d, hread, Draft.finish_fill haround (hlast (remainder source) rfl)⟩

/-! ## From drafts to contents -/

/-- Some pieces spell a content for the block that is open at a level, and one for each of the
blocks around it. -/
inductive Spells : Level → List Level → List Piece → Text → Prop
  | last {level : Level} {c : Content} {pieces : List Piece} {last : Text}
      (h : Derives level c pieces last) : Spells level [] pieces last
  | close {level outer : Level} {levels : List Level} {c : Content} {inner pieces : List Piece}
      {innerLast last : Text} (h : Derives level c inner innerLast)
      (hrest : Spells outer levels pieces last) :
      Spells level (outer :: levels) (inner ++ ⟨innerLast, .closeBrace⟩ :: pieces) last

namespace Spells

variable {level inside : Level} {levels : List Level} {pieces : List Piece} {text last : Text}

theorem declaration {property value : Text} (h : Declares text property value)
    (hs : Spells level levels pieces last) :
    Spells level levels (⟨text, .semicolon⟩ :: pieces) last := by
  cases hs with
  | last hc => exact .last (.declaration h hc)
  | close hc hrest => exact .close (.declaration h hc) hrest

theorem block {head : Head} (h : Heads text head) (hholds : level.Holds head inside)
    (hs : Spells inside (level :: levels) pieces last) :
    Spells level levels (⟨text, .openBrace⟩ :: pieces) last := by
  cases hs with
  | close hinner hs =>
    cases hs with
    | last hc => exact .last (.block h hholds hinner hc)
    | close hc hrest =>
      have hclosed := Spells.close (.block h hholds hinner hc) hrest
      rwa [List.cons_append, List.append_assoc, List.cons_append] at hclosed

end Spells

namespace Draft

variable {d d' : Draft} {text : Text}

theorem around_of_declareLast (h : d.declareLast text = .ok d') : d'.around = d.around := by
  obtain ⟨-, rfl⟩ | ⟨_, _, -, rfl⟩ := declareLast_eq_ok_iff.1 h
  · rfl
  · exact around_insert ..

/-- What stands in front of the end of a content is a content of its own. -/
theorem derives_of_declareLast (h : d.declareLast text = .ok d') (level : Level) :
    ∃ c, Derives level c [] text.trim := by
  obtain ⟨hblank, -⟩ | ⟨_, _, hdeclares, -⟩ := declareLast_eq_ok_iff.1 h
  · exact ⟨.nil, hblank ▸ .nil⟩
  · exact ⟨_, .last hdeclares⟩

theorem read_closeBrace_eq_ok (h : d.read scope text .closeBrace = .ok d') :
    ∃ d₁, d.around ≠ [] ∧ d.declareLast text = .ok d₁ ∧ d₁.closeBlock scope = d' := by
  rw [read, atTop_eq] at h
  split at h
  · cases h
  · next htop =>
    cases hlast : d.declareLast text with
    | error fault => simp [hlast, Except.map] at h
    | ok d₁ => exact ⟨d₁, by simpa using htop, rfl, by simpa [hlast, Except.map] using h⟩

theorem finish_eq_ok {result : RuleTree} (h : d.finish scope text = .ok result) :
    ∃ d₁, d.around = [] ∧ d.declareLast text = .ok d₁ := by
  rw [finish, atTop_eq] at h
  split at h
  · next htop =>
    cases hlast : d.declareLast text with
    | error fault => simp [hlast, Except.map] at h
    | ok d₁ => exact ⟨d₁, by simpa using htop, rfl⟩
  · cases h

/-- If the rest of a source is read, it spells the contents that are still open. -/
theorem spells_of_readAll {chunks : List Chunk} {result : RuleTree}
    (hread : d.readAll scope chunks = .ok d') (hfinish : d'.finish scope text = .ok result) :
    Spells d.level d.around (chunks.map Chunk.piece) text.trim := by
  induction chunks generalizing d with
  | nil =>
    obtain rfl := Except.ok.inj hread
    obtain ⟨d₁, htop, hlast⟩ := finish_eq_ok hfinish
    obtain ⟨c, hc⟩ := derives_of_declareLast hlast d.level
    rw [htop]
    exact .last hc
  | cons chunk chunks ih =>
    obtain ⟨chunkText, delimiter, offset⟩ := chunk
    rw [readAll] at hread
    split at hread
    · next d₁ hstep =>
      have hs := ih hread
      cases delimiter with
      | semicolon =>
        obtain ⟨_, _, hdeclares, rfl⟩ := declare_eq_ok_iff.1 hstep
        rw [level_insert, around_insert] at hs
        exact hs.declaration hdeclares
      | openBrace =>
        obtain ⟨head, inside, hhead, hholds, rfl⟩ := openBlock_eq_ok_iff.1 hstep
        rw [level_enter hholds, around_enter hholds] at hs
        exact hs.block (by simpa using hhead) hholds
      | closeBrace =>
        obtain ⟨d₂, hne, hlast, rfl⟩ := read_closeBrace_eq_ok hstep
        obtain ⟨outer, levels, haround⟩ := List.exists_cons_of_ne_nil hne
        have haround₂ := (around_of_declareLast hlast).trans haround
        rw [level_closeBlock haround₂, around_closeBlock haround₂] at hs
        obtain ⟨c, hc⟩ := derives_of_declareLast hlast d.level
        rw [haround]
        exact .close hc hs
    · cases hread

end Draft

/-- A source that is read has a content. -/
theorem exists_says_of_parse {source : Text} {result : RuleTree}
    (h : parse scope source = .ok result) : ∃ c, Source.Says source c := by
  obtain ⟨d, hread, hfinish⟩ := parse_eq_ok_iff.1 h
  cases Draft.spells_of_readAll hread hfinish with
  | last hc => exact ⟨_, hc⟩

/-- Reading agrees with the grammar, whatever the scope. A source is read exactly if it has a
content, which is then the only one, and its rule tree is defined by recursion on that content.
Every other source is an error. -/
theorem parse_agrees (scope source : Text) :
    (∀ result, parse scope source = .ok result ↔
      ∃ c, Source.Says source c ∧ c.tree scope = result) ∧
    (∀ c c', Source.Says source c → Source.Says source c' → c = c') ∧
    ((∃ e, parse scope source = .error e) ↔ ¬ ∃ c, Source.Says source c) := by
  have hok : ∀ result, parse scope source = .ok result ↔
      ∃ c, Source.Says source c ∧ c.tree scope = result := by
    intro result
    constructor
    · intro h
      obtain ⟨c, hc⟩ := exists_says_of_parse h
      exact ⟨c, hc, Except.ok.inj (hc.parse_eq.symm.trans h)⟩
    · rintro ⟨c, hc, rfl⟩
      exact hc.parse_eq
  refine ⟨hok, fun c c' h h' => h.unique h', ?_⟩
  constructor
  · rintro ⟨e, he⟩ ⟨c, hc⟩
    simp [hc.parse_eq] at he
  · intro hnone
    cases hparse : parse scope source with
    | error e => exact ⟨e, rfl⟩
    | ok result => exact absurd (exists_says_of_parse hparse) hnone

end ScopedStyles
