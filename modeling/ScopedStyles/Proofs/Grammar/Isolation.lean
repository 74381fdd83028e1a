import ScopedStyles.Proofs.Grammar.Hole
import ScopedStyles.Proofs.Source.Lookahead
import ScopedStyles.Proofs.Text.Framed

/-!
# What an animation is isolated from

The body of an animation can be replaced by another one whose braces are paired as well. All that
the rule tree takes from the body is its steps and what is declared directly in it: an animation
keeps no declarations of its own, so these go to the body around it. If they come to the same there,
then only the steps of this one animation change.

## Main definitions

* `Piece.Paired` — pieces whose braces are paired.
* `Hole.Takes` — which pieces a content around an animation is derived from.
* `Source.OpensAnimation`, `Source.IsBody` — what stands up to the opening brace of an animation,
  and what can stand between its braces.

## Main statements

* `Piece.Paired.append_inj` — where a block that has been opened is closed.
* `Derives.exists_hole` — the content around an animation that stands in a row of pieces.
* `keyframes_isolated_iff` — when another body changes the steps of the animation and nothing else.
-/

namespace ScopedStyles

/-! ## Paired braces -/

namespace Piece

/-- The delimiters of some pieces. -/
def delimiters (pieces : List Piece) : Text :=
  pieces.map (·.delimiter.char)

/-- The braces of some pieces are paired. -/
def Paired (pieces : List Piece) : Prop :=
  (delimiters pieces).Balanced

instance (pieces : List Piece) : Decidable (Paired pieces) :=
  inferInstanceAs (Decidable (Text.Balanced _))

@[simp] theorem delimiters_nil : delimiters [] = [] := rfl

@[simp] theorem delimiters_append (a b : List Piece) :
    delimiters (a ++ b) = delimiters a ++ delimiters b :=
  List.map_append

@[simp] theorem delimiters_cons (text : Text) (d : Delimiter) (pieces : List Piece) :
    delimiters (⟨text, d⟩ :: pieces) = d.char :: delimiters pieces := rfl

theorem delimiters_isPrefix (a b : List Piece) : delimiters a <+: delimiters (a ++ b) := by
  rw [delimiters_append]
  exact List.prefix_append _ _

variable {p q r r' : List Piece} {text text' : Text}

/-- Pieces that leave no brace open are not followed by the one that closes, where all braces are
paired. -/
theorem Paired.eq_nil (h : Paired (p ++ q)) (hp : (delimiters p).depth ≤ 0)
    (hq : ⟨text, .closeBrace⟩ :: r = q ++ ⟨text', .closeBrace⟩ :: r') : q = [] := by
  cases q with
  | nil => rfl
  | cons piece q =>
    obtain ⟨rfl, -⟩ := List.cons.inj hq
    have hprefix : delimiters (p ++ [⟨text, .closeBrace⟩]) <+:
        delimiters (p ++ ⟨text, .closeBrace⟩ :: q) := by
      rw [List.append_cons p _ q]
      exact delimiters_isPrefix _ _
    have hnonneg := h.nonneg _ hprefix
    simp only [delimiters_append, delimiters_cons, delimiters_nil, Delimiter.char,
      Text.depth_append, Text.depth_cons_close, Text.depth_nil] at hnonneg
    omega

/-- A block whose braces are paired ends at the first brace that closes it. -/
theorem Paired.append_inj (hp : Paired p) (hq : Paired q)
    (h : p ++ ⟨text, .closeBrace⟩ :: r = q ++ ⟨text', .closeBrace⟩ :: r') :
    p = q ∧ text = text' ∧ r = r' := by
  have hsame : p = q := by
    rcases List.append_eq_append_iff.1 h with ⟨u, rfl, hu⟩ | ⟨u, rfl, hu⟩
    · rw [hq.eq_nil (Int.le_of_eq hp.depth_eq_zero) hu, List.append_nil]
    · rw [hp.eq_nil (Int.le_of_eq hq.depth_eq_zero) hu, List.append_nil]
  subst hsame
  simpa using h

/-- Within paired braces, a block that is opened is closed: if its content is paired, then up to the
brace behind the content. -/
theorem Paired.exists_close (hp : Paired (p ++ ⟨text, .openBrace⟩ :: q)) {inner : List Piece}
    (hinner : Paired inner) {text' text'' : Text}
    (h : q ++ ⟨text', .closeBrace⟩ :: r = inner ++ ⟨text'', .closeBrace⟩ :: r') :
    ∃ rest, q = inner ++ ⟨text'', .closeBrace⟩ :: rest ∧
      r' = rest ++ ⟨text', .closeBrace⟩ :: r := by
  have hdepth : (delimiters q).depth < 0 := by
    have hnonneg := hp.nonneg _ (delimiters_isPrefix p _)
    have hzero := hp.depth_eq_zero
    simp only [delimiters_append, delimiters_cons, Delimiter.char, Text.depth_append,
      Text.depth_cons_open] at hzero
    omega
  -- The content cannot reach past the braces around it, since it closes none that it does not open.
  have hshort : ¬ delimiters q <+: delimiters inner := by
    intro hprefix
    have hnonneg := hinner.nonneg _ hprefix
    omega
  rcases List.append_eq_append_iff.1 h with ⟨u, rfl, -⟩ | ⟨u, rfl, hu⟩
  · exact absurd (delimiters_isPrefix q u) hshort
  · cases u with
    | nil => exact absurd (by rw [List.append_nil]) hshort
    | cons piece rest =>
      obtain ⟨rfl, hrest⟩ := List.cons.inj hu
      exact ⟨rest, rfl, hrest⟩

end Piece

/-- The pieces of a content are paired. -/
theorem Derives.paired {level : Level} {c : Content} {pieces : List Piece} {last : Text}
    (h : Derives level c pieces last) : Piece.Paired pieces := by
  have hsemicolon : Text.Balanced [';'] := Text.Inline.balanced (by decide)
  induction h with
  | nil => exact Text.balanced_nil
  | last _ => exact Text.balanced_nil
  | declaration _ _ ih => exact hsemicolon.append ih
  | block _ _ _ _ ihinner ihrest =>
    have hblock := ihinner.block.append ihrest
    simpa [Piece.Paired, Delimiter.char] using hblock

/-! ## The content around an animation -/

/-- Whatever is derived for the content of the animation, the content around it can be derived with
some pieces before the animation's and others behind the brace that closes it. -/
def Hole.Takes (hole : Hole) (before after : List Piece) (last : Text) : Prop :=
  ∀ ⦃content : Content⦄ ⦃inner : List Piece⦄ ⦃innerLast : Text⦄,
    Derives .keyframes content inner innerLast →
      Derives .body (hole.fill content)
        (before ++ (inner ++ ⟨innerLast, .closeBrace⟩ :: after)) last

namespace Hole.Takes

variable {hole : Hole} {before after pieces : List Piece} {text last outerLast : Text}

theorem here {name : Text} {rest : Content} (h : Heads text (.keyframes name))
    (hrest : Derives .body rest after last) :
    (Hole.here .nil name rest).Takes [⟨text, .openBrace⟩] after last :=
  fun _ _ _ hcontent => .block h (.keyframes name) hcontent hrest

theorem behind {c : Content} (hc : Derives .body c pieces [])
    (h : hole.Takes before after last) : (hole.behind c).Takes (pieces ++ before) after last := by
  intro content inner innerLast hcontent
  rw [fill_behind, List.append_assoc]
  exact hc.append (h hcontent)

theorem inside {type : GroupType} {query : Text} {rest : Content}
    (hhead : Heads text (.group type query)) (h : hole.Takes before after last)
    (hrest : Derives .body rest pieces outerLast) :
    (Hole.inside .nil type query hole rest).Takes (⟨text, .openBrace⟩ :: before)
      (after ++ ⟨last, .closeBrace⟩ :: pieces) outerLast := by
  intro content inner innerLast hcontent
  have hblock := Derives.block hhead (.group type query) (h hcontent) hrest
  simpa [Hole.fill, Content.append] using hblock

end Hole.Takes

/-- In a row of pieces that is derived, an animation stands in a body, and the content around it
takes every other content for the animation's. -/
theorem Derives.exists_hole {level : Level} {c : Content} {row : List Piece} {last : Text}
    (h : Derives level c row last) {header name : Text} (hheader : Heads header (.keyframes name))
    {front inner back : List Piece} {innerLast : Text} (hinner : Piece.Paired inner)
    (hrow : row = front ++ ⟨header, .openBrace⟩ :: (inner ++ ⟨innerLast, .closeBrace⟩ :: back)) :
    level = .body ∧ ∃ (hole : Hole) (content : Content), hole.name = name ∧
      c = hole.fill content ∧ Derives .keyframes content inner innerLast ∧
      hole.Takes (front ++ [⟨header, .openBrace⟩]) back last := by
  induction h generalizing front innerLast back with
  | nil => simp at hrow
  | last _ => simp at hrow
  | @declaration level rest pieces text property value last hdeclares _ ih =>
    cases front with
    | nil => simp at hrow
    | cons piece front =>
      obtain ⟨rfl, htail⟩ := List.cons.inj hrow
      obtain ⟨rfl, hole, content, hname, rfl, hcontent, htakes⟩ := ih htail
      have hbehind := htakes.behind (.declaration hdeclares .nil)
      refine ⟨rfl, hole.behind (.declaration property value .nil), content, ?_, ?_, hcontent, ?_⟩
      · rw [Hole.name_behind, hname]
      · rw [Hole.fill_behind]
        rfl
      · simpa using hbehind
  | @block level inside head content rest pieces restPieces text textLast last hhead hholds hcontent
      hrest ihcontent ihrest =>
    cases front with
    | nil =>
      simp only [List.nil_append, List.cons.injEq, Piece.mk.injEq, and_true] at hrow
      obtain ⟨rfl, hrow⟩ := hrow
      obtain rfl := hhead.unique hheader
      obtain ⟨rfl, rfl, rfl⟩ := hcontent.paired.append_inj hinner hrow
      cases hholds
      exact ⟨rfl, .here .nil name rest, content, rfl, rfl, hcontent, .here hhead hrest⟩
    | cons piece front =>
      obtain ⟨rfl, htail⟩ := List.cons.inj hrow
      rcases List.append_eq_append_iff.1 htail with ⟨u, rfl, hu⟩ | ⟨u, hpieces, hu⟩
      · -- The animation stands behind the block.
        cases u with
        | nil => simp at hu
        | cons piece front =>
          obtain ⟨rfl, hbehind⟩ := List.cons.inj hu
          obtain ⟨rfl, hole, inside, hname, rfl, hinside, htakes⟩ := ihrest hbehind
          have hbehind := htakes.behind (.block hhead hholds hcontent .nil)
          refine ⟨rfl, hole.behind (.block head content .nil), inside, ?_, ?_, hinside, ?_⟩
          · rw [Hole.name_behind, hname]
          · rw [Hole.fill_behind]
            rfl
          · simpa using hbehind
      · -- It stands in the block, which is then a group.
        cases u with
        | nil => simp at hu
        | cons piece q =>
          obtain ⟨rfl, hclose⟩ := List.cons.inj hu
          obtain ⟨rest', rfl, rfl⟩ :=
            Piece.Paired.exists_close (hpieces ▸ hcontent.paired) hinner hclose.symm
          obtain ⟨rfl, hole, inside, hname, rfl, hinside, htakes⟩ := ihcontent hpieces
          cases hholds with
          | group type query =>
            exact ⟨rfl, .inside .nil type query hole rest, inside, hname, rfl, hinside,
              htakes.inside hhead hrest⟩

/-! ## The body of an animation -/

namespace Source

/-- A text in front of a delimiter that is read as one ends a piece. -/
theorem pieces_concat {t : Text} {d : Delimiter}
    (h : (Pending.after {} (some d.char) t).phase = .outside) :
    EndsAtDelimiter (t ++ [d.char]) ∧ pieces (t ++ [d.char]) = pieces t ++ [⟨lastPiece t, d⟩] := by
  obtain ⟨text, htrim, hchunks⟩ := exists_chunks_concat h
  constructor
  · refine ⟨⟨text, d, t.length⟩, ?_, by simp⟩
    rw [hchunks]
    exact List.mem_append_right _ (List.mem_singleton_self _)
  · rw [pieces, hchunks, List.map_append, List.map_singleton, Chunk.piece, htrim]
    rfl

/-- A source up to the opening brace of an animation. -/
structure OpensAnimation (source name : Text) : Prop where
  ends : EndsAtDelimiter source
  opens : ∃ front header, pieces source = front ++ [⟨header, .openBrace⟩] ∧
    Heads header (.keyframes name)

/-- A text that can stand as a whole between two braces: it leaves no comment open, and its own
braces are paired. -/
structure IsBody (body : Text) : Prop where
  outside : (Pending.after {} (some '}') body).phase = .outside
  paired : Piece.Paired (pieces body)

instance (body : Text) : Decidable (IsBody body) :=
  decidable_of_iff ((Pending.after {} (some '}') body).phase = .outside ∧
      Piece.Paired (pieces body))
    ⟨fun h => ⟨h.1, h.2⟩, fun h => ⟨h.outside, h.paired⟩⟩

/-- The pieces of a source that has a body between two braces. -/
theorem IsBody.pieces_eq {a body : Text} (h : IsBody body) (ha : EndsAtDelimiter a) (b : Text) :
    pieces (a ++ body ++ '}' :: b) =
        pieces a ++ (pieces body ++ ⟨lastPiece body, .closeBrace⟩ :: pieces b) ∧
      lastPiece (a ++ body ++ '}' :: b) = lastPiece b := by
  have hconcat : EndsAtDelimiter (body ++ ['}']) ∧
      pieces (body ++ ['}']) = pieces body ++ [⟨lastPiece body, .closeBrace⟩] :=
    pieces_concat (d := .closeBrace) h.outside
  obtain ⟨hend, hpieces⟩ := hconcat
  have hsplit : a ++ body ++ '}' :: b = a ++ ((body ++ ['}']) ++ b) := by simp
  rw [hsplit]
  constructor
  · rw [pieces_append (.inr ha), pieces_append (.inr hend), hpieces]
    simp
  · rw [lastPiece_append (.inr ha), lastPiece_append (.inr hend)]

/-- An accepted source with the body of an animation in it has a content with the content of the
animation in it. The content around it takes every other body. -/
theorem IsBody.exists_hole {a b body name : Text} {c : Content} (h : IsBody body)
    (ha : OpensAnimation a name) (hc : Says (a ++ body ++ '}' :: b) c) :
    ∃ (hole : Hole) (content : Content), hole.name = name ∧ c = hole.fill content ∧
      Derives .keyframes content (pieces body) (lastPiece body) ∧
      hole.Takes (pieces a) (pieces b) (lastPiece b) := by
  obtain ⟨front, header, hfront, hheader⟩ := ha.opens
  obtain ⟨hpieces, hlast⟩ := h.pieces_eq ha.ends b
  rw [Says, hpieces, hlast, hfront, List.append_assoc, List.singleton_append] at hc
  obtain ⟨-, hole, content, hname, hfilled, hcontent, htakes⟩ := hc.exists_hole hheader h.paired rfl
  exact ⟨hole, content, hname, hfilled, hcontent, hfront ▸ htakes⟩

theorem IsBody.says {a b body : Text} (h : IsBody body) (ha : EndsAtDelimiter a) {hole : Hole}
    (htakes : hole.Takes (pieces a) (pieces b) (lastPiece b)) {content : Content}
    (hcontent : Derives .keyframes content (pieces body) (lastPiece body)) :
    Says (a ++ body ++ '}' :: b) (hole.fill content) := by
  obtain ⟨hpieces, hlast⟩ := h.pieces_eq ha b
  rw [Says, hpieces, hlast]
  exact htakes hcontent

end Source

/-- If the body of an animation is replaced by another one and the source is still read, then the
steps of this animation are all that changes in the rule tree, exactly if the two bodies come to the
same declarations for the body around the animation. -/
theorem keyframes_isolated_iff {scope a b body body' name : Text} {tree tree' : RuleTree}
    (ha : Source.OpensAnimation a name) (hbody : Source.IsBody body) (hbody' : Source.IsBody body')
    (h : parse scope (a ++ body ++ '}' :: b) = .ok tree)
    (h' : parse scope (a ++ body' ++ '}' :: b) = .ok tree') :
    ∃ (hole : Hole) (content content' : Content), hole.name = name ∧
      Source.Says (a ++ body ++ '}' :: b) (hole.fill content) ∧
      Source.Says (a ++ body' ++ '}' :: b) (hole.fill content') ∧
      Derives .keyframes content (Source.pieces body) (Source.lastPiece body) ∧
      Derives .keyframes content' (Source.pieces body') (Source.lastPiece body') ∧
      (RuleTree.OtherSteps (qualify scope name) content.steps content'.steps tree tree' ↔
        Dictionary.ofList (hole.declared content) =
          Dictionary.ofList (hole.declared content')) := by
  obtain ⟨c, hc⟩ := exists_says_of_parse h
  obtain ⟨c', hc'⟩ := exists_says_of_parse h'
  obtain ⟨hole, content, rfl, rfl, hcontent, htakes⟩ := hbody.exists_hole ha hc
  obtain ⟨hole', content', -, rfl, hcontent', -⟩ := hbody'.exists_hole ha hc'
  have hfilled := hbody'.says ha.ends htakes hcontent'
  obtain rfl := Except.ok.inj (h.symm.trans hc.parse_eq)
  obtain rfl := Except.ok.inj (h'.symm.trans hfilled.parse_eq)
  exact ⟨hole, content, content', rfl, hc, hfilled, hcontent, hcontent',
    hole.otherSteps_tree_iff content content'⟩

theorem keyframes_isolated_iff_media :
    Source.OpensAnimation "@media print\x7bx:y;@keyframes m\x7b".toList ['m'] ∧
    Source.IsBody "from{o:1}/*\x7d*/".toList ∧ Source.IsBody "to{o:0}".toList ∧
    ∃ tree tree' : RuleTree,
      parse ['k'] ("@media print\x7bx:y;@keyframes m\x7b".toList ++ "from{o:1}/*\x7d*/".toList ++
        '}' :: "p{q:r}\x7d".toList) = .ok tree ∧
      parse ['k'] ("@media print\x7bx:y;@keyframes m\x7b".toList ++ "to{o:0}".toList ++
        '}' :: "p{q:r}\x7d".toList) = .ok tree' ∧
      RuleTree.OtherSteps "k-m".toList [⟨"from".toList, ⟨[(['o'], ['1'])]⟩⟩]
        [⟨"to".toList, ⟨[(['o'], ['0'])]⟩⟩] tree tree' := by
  have ha : Source.OpensAnimation "@media print\x7bx:y;@keyframes m\x7b".toList ['m'] := by
    refine ⟨by decide +kernel, [⟨"@media print".toList, .openBrace⟩, ⟨"x:y".toList, .semicolon⟩],
      "@keyframes m".toList, by decide +kernel, ?_⟩
    exact Heads.keyframes " m".toList
  have hbody : Source.IsBody "from{o:1}/*\x7d*/".toList := by decide +kernel
  have hbody' : Source.IsBody "to{o:0}".toList := by decide +kernel
  have hparse : parse ['k'] ("@media print\x7bx:y;@keyframes m\x7b".toList ++
      "from{o:1}/*\x7d*/".toList ++ '}' :: "p{q:r}\x7d".toList) =
      .ok ⟨[.group .media "print".toList [.ruleSet ⟨".k".toList, ⟨[(['x'], ['y'])]⟩⟩,
        .keyframes "k-m".toList [⟨"from".toList, ⟨[(['o'], ['1'])]⟩⟩],
        .ruleSet ⟨".k p".toList, ⟨[(['q'], ['r'])]⟩⟩]], ⟨[(['m'], "k-m".toList)]⟩⟩ := by
    decide +kernel
  have hparse' : parse ['k'] ("@media print\x7bx:y;@keyframes m\x7b".toList ++ "to{o:0}".toList ++
      '}' :: "p{q:r}\x7d".toList) =
      .ok ⟨[.group .media "print".toList [.ruleSet ⟨".k".toList, ⟨[(['x'], ['y'])]⟩⟩,
        .keyframes "k-m".toList [⟨"to".toList, ⟨[(['o'], ['0'])]⟩⟩],
        .ruleSet ⟨".k p".toList, ⟨[(['q'], ['r'])]⟩⟩]], ⟨[(['m'], "k-m".toList)]⟩⟩ := by
    decide +kernel
  -- Each body is a single step.
  have hstep : ∀ selector value : Text, selector ≠ [] → selector.head? ≠ some '@' →
      Text.trim value = value → value ≠ [] →
      Derives .keyframes (.block (.selector selector) (.declaration ['o'] value .nil) .nil)
        [⟨selector, .openBrace⟩, ⟨'o' :: ':' :: value, .closeBrace⟩] [] :=
    fun selector value hne hat htrim hvalue => .block (.selector hne hat) (.step _)
      (.last ⟨⟨['o'], value, rfl, by decide, rfl, htrim⟩, by decide, hvalue⟩) .nil
  have hfrom := hstep "from".toList ['1'] (by decide) (by decide) rfl (by decide)
  have hto := hstep "to".toList ['0'] (by decide) (by decide) rfl (by decide)
  have hrow : Source.pieces "from{o:1}/*\x7d*/".toList ++
      [⟨Source.lastPiece "from{o:1}/*\x7d*/".toList, .closeBrace⟩] =
      [⟨"from".toList, .openBrace⟩, ⟨"o:1".toList, .closeBrace⟩] ++ [⟨[], .closeBrace⟩] := by
    decide +kernel
  have hrow' : Source.pieces "to{o:0}".toList ++
      [⟨Source.lastPiece "to{o:0}".toList, .closeBrace⟩] =
      [⟨"to".toList, .openBrace⟩, ⟨"o:0".toList, .closeBrace⟩] ++ [⟨[], .closeBrace⟩] := by
    decide +kernel
  obtain ⟨hole, content, content', -, -, -, hcontent, hcontent', hiff⟩ :=
    keyframes_isolated_iff ha hbody hbody' hparse hparse'
  obtain ⟨rfl, -⟩ := hcontent.unique_append hfrom hrow
  obtain ⟨rfl, -⟩ := hcontent'.unique_append hto hrow'
  refine ⟨ha, hbody, hbody', _, _, hparse, hparse', hiff.2 ?_⟩
  exact congrArg Dictionary.ofList (hole.declared_congr rfl)

/-- What is declared directly in an animation is declared for the scope's class. -/
theorem keyframes_not_isolated :
    ∃ tree tree' : RuleTree, parse ['k'] "@keyframes x{a:b}".toList = .ok tree ∧
      parse ['k'] "@keyframes x{}".toList = .ok tree' ∧
      ∀ (identifier : Text) (steps steps' : List RuleSet),
        ¬ RuleTree.OtherSteps identifier steps steps' tree tree' := by
  refine ⟨⟨[.keyframes "k-x".toList [], .ruleSet ⟨".k".toList, ⟨[(['a'], ['b'])]⟩⟩],
      ⟨[(['x'], "k-x".toList)]⟩⟩,
    ⟨[.keyframes "k-x".toList []], ⟨[(['x'], "k-x".toList)]⟩⟩,
    by decide +kernel, by decide +kernel, fun identifier steps steps' h => ?_⟩
  have hlength := congrArg List.length h.rules.allWithoutSteps_eq
  simp [Rule.length_allWithoutSteps] at hlength

end ScopedStyles
