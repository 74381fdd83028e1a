import Mathlib.Data.List.Infix
import ScopedStyles.Text.Basic

/-!
# Blocks and lines

A framed text lies on one line, and of the braces that it opens the last one is closed by its last
character and not before. So framed texts can be put one after the other, with line ends between
them or without, and can still be told apart.

## Main definitions

* `Text.depth` — how many braces a text leaves open.
* `Text.Balanced`, `Text.Framed` — texts that open and close their braces, in any number of blocks
  or in a single one.
* `Text.blocks`, `Text.lines` — what a text is cut into after its blocks and at its line ends.

## Main statements

* `Text.framed_block`, `Text.framed_block_flatMap` — a balanced text between braces, with a header
  before it, is framed.
* `Text.blocks_flatten`, `Text.lines_flatMap` — cutting gives back what was put together.
-/

namespace ScopedStyles.Text

/-! ## Depth -/

/-- How many braces a text leaves open. Braces that it closes without having opened them count
against those that it opens. -/
def depth (t : Text) : Int :=
  t.count '{' - t.count '}'

@[simp] theorem depth_nil : depth [] = 0 := rfl

@[simp] theorem depth_append (a b : Text) : depth (a ++ b) = depth a + depth b := by
  simp only [depth, List.count_append]
  omega

@[simp] theorem depth_cons_open (t : Text) : depth ('{' :: t) = depth t + 1 := by
  simp only [depth, List.count_cons_self, List.count_cons_of_ne (by decide : '{' ≠ '}')]
  omega

@[simp] theorem depth_cons_close (t : Text) : depth ('}' :: t) = depth t - 1 := by
  simp only [depth, List.count_cons_self, List.count_cons_of_ne (by decide : '}' ≠ '{')]
  omega

theorem depth_cons_of_ne {c : Char} (hopen : c ≠ '{') (hclose : c ≠ '}') (t : Text) :
    depth (c :: t) = depth t := by
  simp [depth, List.count_cons_of_ne, hopen, hclose]

@[simp] theorem depth_reverse (t : Text) : depth t.reverse = depth t := by
  simp [depth]

/-- A brace that is closed where nothing is left open has been opened. -/
theorem open_mem_of_depth_eq_zero {t : Text} (hclose : '}' ∈ t) (h : depth t = 0) : '{' ∈ t := by
  have hcount := List.count_pos_iff.2 hclose
  rw [depth] at h
  exact List.count_pos_iff.1 (by omega)

/-! ## Inline texts -/

/-- A text on one line, without braces. -/
def Inline (t : Text) : Prop :=
  ∀ c ∈ t, c ≠ '\n' ∧ c ≠ '{' ∧ c ≠ '}'

instance (t : Text) : Decidable t.Inline :=
  List.decidableBAll _ t

namespace Inline

variable {t : Text}

theorem of_subset {s : Text} (h : t.Inline) (hs : s ⊆ t) : s.Inline :=
  fun c hc => h c (hs hc)

theorem newline_notMem (h : t.Inline) : '\n' ∉ t :=
  fun hmem => (h _ hmem).1 rfl

theorem open_notMem (h : t.Inline) : '{' ∉ t :=
  fun hmem => (h _ hmem).2.1 rfl

theorem depth_eq_zero (h : t.Inline) : depth t = 0 := by
  have hclose : '}' ∉ t := fun hmem => (h _ hmem).2.2 rfl
  simp [depth, List.count_eq_zero_of_not_mem h.open_notMem, List.count_eq_zero_of_not_mem hclose]

end Inline

/-! ## Balanced texts -/

/-- Every brace that is closed has been opened, and every brace that is opened is closed. -/
structure Balanced (t : Text) : Prop where
  nonneg : ∀ p, p <+: t → 0 ≤ depth p
  depth_eq_zero : depth t = 0

instance (t : Text) : Decidable t.Balanced :=
  decidable_of_iff ((∀ p ∈ t.inits, 0 ≤ depth p) ∧ depth t = 0)
    ⟨fun ⟨hnonneg, hzero⟩ => ⟨fun p hp => hnonneg p ((List.mem_inits p t).2 hp), hzero⟩,
      fun h => ⟨fun p hp => h.nonneg p ((List.mem_inits p t).1 hp), h.depth_eq_zero⟩⟩

theorem exists_of_isPrefix_append {a b p : Text} (h : p <+: a ++ b) :
    p <+: a ∨ ∃ q, q <+: b ∧ p = a ++ q := by
  rcases List.prefix_or_prefix_of_prefix h (List.prefix_append a b) with hp | ⟨q, rfl⟩
  · exact .inl hp
  · exact .inr ⟨q, (List.prefix_append_right_inj a).1 h, rfl⟩

theorem Inline.balanced {t : Text} (h : t.Inline) : t.Balanced where
  nonneg _ hp := Int.le_of_eq (h.of_subset hp.subset).depth_eq_zero.symm
  depth_eq_zero := h.depth_eq_zero

theorem balanced_nil : Balanced [] :=
  Inline.balanced (List.forall_mem_nil _)

theorem Balanced.append {a b : Text} (ha : a.Balanced) (hb : b.Balanced) :
    Balanced (a ++ b) where
  nonneg p hp := by
    rcases exists_of_isPrefix_append hp with hp | ⟨q, hq, rfl⟩
    · exact ha.nonneg p hp
    · rw [depth_append, ha.depth_eq_zero, Int.zero_add]
      exact hb.nonneg q hq
  depth_eq_zero := by rw [depth_append, ha.depth_eq_zero, hb.depth_eq_zero, Int.zero_add]

theorem Balanced.block {body : Text} (h : body.Balanced) : Balanced ('{' :: body ++ ['}']) where
  nonneg p hp := by
    rcases List.prefix_concat_iff.1 hp with rfl | hp
    · simp [h.depth_eq_zero]
    rcases List.prefix_cons_iff.1 hp with rfl | ⟨q, rfl, hq⟩
    · exact Int.le_refl 0
    · have hnonneg := h.nonneg q hq
      rw [depth_cons_open]
      omega
  depth_eq_zero := by simp [h.depth_eq_zero]

theorem Balanced.flatten {texts : List Text} (h : ∀ t ∈ texts, Balanced t) :
    Balanced texts.flatten := by
  induction texts with
  | nil => exact balanced_nil
  | cons t texts ih =>
    obtain ⟨ht, htexts⟩ := List.forall_mem_cons.1 h
    exact ht.append (ih htexts)

/-! ## Framed texts -/

/-- A text on one line whose braces are balanced, and all closed again, for the first time since one
was opened, at its end. -/
structure Framed (t : Text) : Prop where
  line : '\n' ∉ t
  balanced : t.Balanced
  opened : '{' ∈ t
  first : ∀ p, p <+: t → '{' ∈ p → depth p = 0 → p = t

/-- Up to its last brace a block begins with a part of its header, or with all of it and a part of
its body. -/
theorem exists_of_isPrefix_block {header body p : Text} (h : p <+: header ++ '{' :: body) :
    p <+: header ∨ ∃ q, q <+: body ∧ p = header ++ '{' :: q := by
  rcases exists_of_isPrefix_append h with hp | ⟨q, hq, rfl⟩
  · exact .inl hp
  rcases List.prefix_cons_iff.1 hq with rfl | ⟨r, rfl, hr⟩
  · exact .inl (by simp)
  · exact .inr ⟨r, hr, rfl⟩

/-- A block is framed: a header, and a balanced text on one line between braces. -/
theorem framed_block {header body : Text} (hheader : header.Inline) (hbody : body.Balanced)
    (hline : '\n' ∉ body) : Framed (header ++ '{' :: body ++ ['}']) := by
  have hdepth : depth (header ++ '{' :: body ++ ['}']) = 0 := by
    simp [hheader.depth_eq_zero, hbody.depth_eq_zero]
  -- once the brace is open, the body alone cannot close it
  have hinside : ∀ q, q <+: body → 0 < depth (header ++ '{' :: q) := by
    intro q hq
    have hnonneg := hbody.nonneg q hq
    rw [depth_append, hheader.depth_eq_zero, depth_cons_open]
    omega
  refine ⟨by simp [hheader.newline_notMem, hline], ⟨?_, hdepth⟩, by simp, ?_⟩
  · intro p hp
    rcases List.prefix_concat_iff.1 hp with rfl | hp
    · omega
    rcases exists_of_isPrefix_block hp with hp | ⟨q, hq, rfl⟩
    · exact hheader.balanced.nonneg p hp
    · exact Int.le_of_lt (hinside q hq)
  · intro p hp hopen hzero
    rcases List.prefix_concat_iff.1 hp with rfl | hp
    · rfl
    rcases exists_of_isPrefix_block hp with hp | ⟨q, hq, rfl⟩
    · exact absurd (hp.subset hopen) hheader.open_notMem
    · have hpos := hinside q hq
      omega

/-- A block of framed texts is framed. -/
theorem framed_block_flatMap {α : Type} {header : Text} {items : List α} {text : α → Text}
    (hheader : header.Inline) (h : ∀ item ∈ items, (text item).Framed) :
    Framed (header ++ '{' :: items.flatMap text ++ ['}']) := by
  apply framed_block hheader
  · rw [List.flatMap_def]
    exact Balanced.flatten (List.forall_mem_map.2 fun item hitem => (h item hitem).balanced)
  · intro hmem
    obtain ⟨item, hitem, hmem⟩ := List.mem_flatMap.1 hmem
    exact (h item hitem).line hmem

namespace Framed

variable {t : Text}

/-- A framed text ends with the brace that closes it. -/
theorem exists_eq_concat (h : t.Framed) : ∃ body, t = body ++ ['}'] := by
  obtain rfl | ⟨body, c, rfl⟩ := List.eq_nil_or_concat' t
  · exact absurd h.opened (by simp)
  have hdepth := h.balanced.depth_eq_zero
  have hbody := h.balanced.nonneg body (List.prefix_append body [c])
  by_cases hclose : c = '}'
  · exact ⟨body, by rw [hclose]⟩
  · by_cases hopen : c = '{'
    · subst hopen
      rw [depth_append, depth_cons_open, depth_nil] at hdepth
      omega
    · have hmem : '{' ∈ body := by simpa [Ne.symm hopen] using h.opened
      rw [depth_append, depth_cons_of_ne hopen hclose, depth_nil, Int.add_zero] at hdepth
      have hwhole := h.first body (List.prefix_append body [c]) hmem hdepth
      simp at hwhole

end Framed

/-! ## Blocks -/

/-- The blocks of a text, each up to a closing brace that leaves none open, and what follows the
last one. What has been read of the first block is `gathered`, the latest character first. -/
def blocksFrom (gathered : Text) : Text → List Text
  | [] => if gathered = [] then [] else [gathered.reverse]
  | c :: t =>
    if c = '}' ∧ depth (c :: gathered) = 0 then (c :: gathered).reverse :: blocksFrom [] t
    else blocksFrom (c :: gathered) t

/-- The blocks of a text. -/
def blocks (t : Text) : List Text :=
  blocksFrom [] t

/-- A framed text at the beginning is cut off as a whole. -/
theorem blocksFrom_framed {gathered t : Text} (ht : t ≠ []) (h : Framed (gathered.reverse ++ t))
    (rest : Text) :
    blocksFrom gathered (t ++ rest) = (gathered.reverse ++ t) :: blocksFrom [] rest := by
  induction t generalizing gathered with
  | nil => exact absurd rfl ht
  | cons c t ih =>
    have hread : (c :: gathered).reverse ++ t = gathered.reverse ++ c :: t := by simp
    rw [List.cons_append, blocksFrom]
    split
    · next hcut =>
      -- the brace is the first one at which nothing is open, so nothing of the text follows it
      have hprefix : (c :: gathered).reverse <+: gathered.reverse ++ c :: t := ⟨t, hread⟩
      have hdepth : depth (c :: gathered).reverse = 0 := by rw [depth_reverse, hcut.2]
      have hopen := open_mem_of_depth_eq_zero (by simp [hcut.1]) hdepth
      have hwhole := h.first _ hprefix hopen hdepth
      obtain rfl : t = [] := by simpa using hwhole
      rw [hwhole, List.nil_append]
    · next hcut =>
      have hne : t ≠ [] := by
        rintro rfl
        obtain ⟨body, hbody⟩ := h.exists_eq_concat
        obtain ⟨-, hlast⟩ := List.append_inj' hbody rfl
        have hdepth := h.balanced.depth_eq_zero
        rw [← hread, List.append_nil, depth_reverse] at hdepth
        exact hcut ⟨List.singleton_inj.1 hlast, hdepth⟩
      rw [ih hne (by rwa [hread]), hread]

/-- Framed texts without anything between them are the blocks of the whole. -/
theorem blocks_flatten {texts : List Text} (h : ∀ t ∈ texts, Framed t) :
    blocks texts.flatten = texts := by
  induction texts with
  | nil => rfl
  | cons t texts ih =>
    obtain ⟨ht, htexts⟩ := List.forall_mem_cons.1 h
    have hne : t ≠ [] := List.ne_nil_of_mem ht.opened
    rw [List.flatten_cons, blocks, blocksFrom_framed hne (by simpa using ht)]
    exact congrArg (t :: ·) (ih htexts)

/-! ## Lines -/

/-- The lines of a text in which every line has an end. -/
def lines (t : Text) : List Text :=
  (t.splitOn '\n').dropLast

theorem splitOn_flatMap_line {texts : List Text} (h : ∀ t ∈ texts, '\n' ∉ t) :
    (texts.flatMap (· ++ ['\n'])).splitOn '\n' = texts ++ [[]] := by
  induction texts with
  | nil => simp
  | cons t texts ih =>
    obtain ⟨ht, htexts⟩ := List.forall_mem_cons.1 h
    have hcut : (t ++ '\n' :: texts.flatMap (· ++ ['\n'])).splitOn '\n' =
        t.splitOn '\n' ++ (texts.flatMap (· ++ ['\n'])).splitOn '\n' :=
      List.splitOnP_append_cons t _ (by simp)
    simp only [List.flatMap_cons, List.append_assoc, List.singleton_append]
    rw [hcut, List.splitOn_eq_singleton ht, ih htexts, List.singleton_append, List.cons_append]

/-- Texts without line ends, with one after each, are the lines of the whole. -/
theorem lines_flatMap {texts : List Text} (h : ∀ t ∈ texts, '\n' ∉ t) :
    lines (texts.flatMap (· ++ ['\n'])) = texts := by
  simp [lines, splitOn_flatMap_line h]

end ScopedStyles.Text
