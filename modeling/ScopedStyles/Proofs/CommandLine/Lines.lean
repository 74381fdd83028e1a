import ScopedStyles.CommandLine.Plan
import ScopedStyles.Proofs.Rule.Framing
import ScopedStyles.Proofs.Session.Run

/-!
# Rules on lines

Framed rules can be told apart in a text that is made of them: in a row without anything between
them, on the lines of a sheet, and on the lines that are compiled. Only control sequences are
missing from compiled lines.

## Main definitions

* `CommandLine.header` — what stands in front of compiled rules.

## Main statements

* `CommandLine.lines_compile` — the lines of what is compiled.
* `Session.splitOn_text_afterAll` — the lines of a sheet.
* `rules_framed` — all this together.
-/

namespace ScopedStyles

variable {scope source : Text} {tree : RuleTree}

/-! ## Compiled lines -/

namespace CommandLine

/-- What stands in front of compiled rules. -/
def header (scope : Text) : Text :=
  "/* scope: .".toList ++ scope ++ " */".toList

theorem inline_header (hscope : scope.Inline) : (header scope).Inline := by
  have hbefore : Text.Inline "/* scope: .".toList := by decide
  have hafter : Text.Inline " */".toList := by decide
  exact List.forall_mem_append.2 ⟨List.forall_mem_append.2 ⟨hbefore, hscope⟩, hafter⟩

/-- The lines of what is compiled, without their control sequences: first the header, then the
rules. -/
theorem lines_compile (hscope : scope.Inline) (h : parse scope source = .ok tree)
    (verbose : Bool) : (compile verbose scope source).stdout.lines =
      (header scope :: tree.texts).map Text.withoutControls := by
  have hlines : ∀ line ∈ header scope :: tree.texts, '\n' ∉ line :=
    List.forall_mem_cons.2 ⟨(inline_header hscope).newline_notMem,
      fun rule hrule => (framed_of_parse hscope h rule hrule).line⟩
  have hstdout : (compile verbose scope source).stdout =
      ((header scope :: tree.texts).map Text.withoutControls).flatMap (· ++ ['\n']) := by
    rw [compile, h, List.map_cons, List.flatMap_cons, List.flatMap_map]
    rfl
  rw [hstdout]
  refine Text.lines_flatMap (List.forall_mem_map.2 fun line hline hmem => ?_)
  exact hlines line hline ((Text.withoutControls_sublist line).subset hmem)

/-- Compiled lines are the rules exactly when there is no control sequence in the rules. -/
theorem tail_lines_compile_eq_iff (hscope : scope.Inline) (h : parse scope source = .ok tree)
    (verbose : Bool) : (compile verbose scope source).stdout.lines.tail = tree.texts ↔
      ∀ rule ∈ tree.texts, ¬ rule.HasControl := by
  have hself := List.map_inj_left (l := tree.texts) (f := Text.withoutControls) (g := id)
  rw [List.map_id] at hself
  rw [lines_compile hscope h, List.map_cons, List.tail_cons, hself]
  simp only [id_eq, Text.withoutControls_eq_self_iff]

end CommandLine

/-! ## Sheets -/

section

variable {κ σ : Type} [DecidableEq κ] [DecidableEq σ]

omit [DecidableEq σ] in
theorem Made.framed_of_mem_arrived {m : Made κ σ} (hkey : m.key.Inline) :
    ∀ rule ∈ m.arrived, rule.Framed := by
  rw [arrived]
  split
  · next tree h => exact fun rule hrule => framed_of_parse hkey h rule (List.mem_filter.1 hrule).1
  · exact List.forall_mem_nil _

/-- The lines of a sheet that is filled by calls alone are its rules. -/
theorem Session.splitOn_text_afterAll {s : Session κ σ} {calls : List (Call κ σ)}
    {target : Target σ} {sheet : Sheet} (hsink : s.sink target = .sheet sheet)
    (hempty : sheet.rules = [])
    (hkeys : ∀ m ∈ s.made calls, m.call.target = target → m.key.Inline) :
    ∃ sheet', (s.afterAll calls).sink target = .sheet sheet' ∧
      (sheet'.rules ≠ [] → sheet'.text.splitOn '\n' = sheet'.rules) := by
  have hframed : ∀ rule ∈ ((s.made calls).filter (·.call.target = target)).flatMap Made.arrived,
      rule.Framed := by
    intro rule hrule
    obtain ⟨m, hm, hrule⟩ := List.mem_flatMap.1 hrule
    obtain ⟨hm, htarget⟩ := List.mem_filter.1 hm
    exact Made.framed_of_mem_arrived (hkeys m hm (of_decide_eq_true htarget)) rule hrule
  rw [s.sink_afterAll, hsink]
  refine ⟨_, rfl, fun hne => ?_⟩
  simp only [hempty, List.nil_append] at hne ⊢
  exact List.splitOn_intercalate '\n' (fun rule hrule => (hframed rule hrule).line) hne

end

open CommandLine

/-- Under a scope on one line and without braces, every rule of a source is printed on one line and
as one block, so that printed rules can be cut apart where they stand in a row. The lines that are
compiled are the header and the rules without their control sequences: they are the rules exactly
when there are none. And the lines of a sheet that calls under such scopes have filled are its
rules. -/
theorem rules_framed {scope source : Text} {tree : RuleTree} (hscope : scope.Inline)
    (h : parse scope source = .ok tree) :
    (∀ rule ∈ tree.texts, rule.Framed) ∧ Text.blocks tree.texts.flatten = tree.texts ∧
    (∀ verbose, (compile verbose scope source).stdout.lines =
        (header scope :: tree.texts).map Text.withoutControls ∧
      ((compile verbose scope source).stdout.lines.tail = tree.texts ↔
        ∀ rule ∈ tree.texts, ¬ rule.HasControl)) ∧
    ∀ (κ σ : Type) [DecidableEq κ] [DecidableEq σ] (s : Session κ σ) (calls : List (Call κ σ))
      (target : Target σ) (sheet : Sheet), s.sink target = .sheet sheet → sheet.rules = [] →
      (∀ m ∈ s.made calls, m.call.target = target → m.key.Inline) →
      ∃ sheet', (s.afterAll calls).sink target = .sheet sheet' ∧
        (sheet'.rules ≠ [] → sheet'.text.splitOn '\n' = sheet'.rules) := by
  have hframed := framed_of_parse hscope h
  refine ⟨hframed, Text.blocks_flatten hframed, fun verbose => ?_, ?_⟩
  · exact ⟨lines_compile hscope h verbose, tail_lines_compile_eq_iff hscope h verbose⟩
  · intro κ σ _ _ s calls target sheet hsink hempty hkeys
    exact Session.splitOn_text_afterAll hsink hempty hkeys

theorem rules_framed_group :
    Text.blocks "@media q {.k a{b:c;}}.k{d:e;}".toList =
        ["@media q {.k a{b:c;}}".toList, ".k{d:e;}".toList] ∧
      (compile false ['k'] "@media q{a{b:c}}d:e".toList).stdout.lines.tail =
        ["@media q {.k a{b:c;}}".toList, ".k{d:e;}".toList] ∧
      ∃ sheet, (Session.afterAll (κ := Empty) (σ := Empty) ⟨.shared, none, nofun, nofun⟩
          [⟨"@media q{a{b:c}}d:e".toList, .shared, .shared⟩]).sink .shared = .sheet sheet ∧
        sheet.text.splitOn '\n' = sheet.rules := by
  have h : parse ['k'] "@media q{a{b:c}}d:e".toList = .ok
      ⟨[.group .media ['q'] [.ruleSet ⟨".k a".toList, ⟨[(['b'], ['c'])]⟩⟩],
        .ruleSet ⟨".k".toList, ⟨[(['d'], ['e'])]⟩⟩], ∅⟩ := by decide +kernel
  obtain ⟨-, hblocks, hlines, hsheets⟩ := rules_framed (by decide) h
  have hplain : ∀ rule ∈ ["@media q {.k a{b:c;}}".toList, ".k{d:e;}".toList],
      ¬ Text.HasControl rule := by
    intro rule hrule hcontrol
    have hescape : ∀ rule ∈ ["@media q {.k a{b:c;}}".toList, ".k{d:e;}".toList],
        '\x1b' ∉ rule := by decide
    exact hescape rule hrule hcontrol.escape_mem
  let s : Session Empty Empty := ⟨.shared, none, nofun, nofun⟩
  obtain ⟨sheet, hsink, hsheet⟩ := hsheets Empty Empty s
    [⟨"@media q{a{b:c}}d:e".toList, .shared, .shared⟩] .shared .shared rfl rfl
    (List.forall_mem_singleton.2 fun _ => by decide +kernel)
  have hne : sheet.rules ≠ [] := by
    have hfilled : ((s.afterAll [⟨"@media q{a{b:c}}d:e".toList, .shared, .shared⟩]).sink
        .shared).rules ≠ [] := by decide +kernel
    rwa [hsink] at hfilled
  exact ⟨hblocks, (hlines false).2.2 hplain, sheet, hsink, hsheet hne⟩

/-- It is not so that compiled lines are the rules: a control sequence is missing, and here the brace
that ends the rule belongs to it. -/
theorem compile_loses_brace :
    ¬ ∀ scope source tree, Text.Inline scope → parse scope source = .ok tree →
      (compile false scope source).stdout.lines.tail = tree.texts := by
  intro h
  have hparse : parse ['k'] "a: \x1b[".toList = .ok
      ⟨[.ruleSet ⟨".k".toList, ⟨[(['a'], "\x1b[".toList)]⟩⟩], ∅⟩ := by decide +kernel
  have hlines : (compile false ['k'] "a: \x1b[".toList).stdout.lines.tail =
      [".k\x7ba:".toList] := by decide +kernel
  have htexts : ".k\x7ba:".toList = ".k\x7ba:\x1b[;\x7d".toList :=
    List.singleton_inj.1 (hlines.symm.trans (h _ _ _ (by decide) hparse))
  exact absurd htexts (by decide)

end ScopedStyles
