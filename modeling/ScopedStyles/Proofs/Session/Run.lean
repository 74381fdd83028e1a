import ScopedStyles.Proofs.Key.Stream
import ScopedStyles.Proofs.Session.Sinks

/-!
# Runs of a session

A run is a row of calls. Each call takes one key from the stream that it names, whatever comes of
it, and changes no other stream and no sink but its own. So no call disturbs what another one has
brought into a sink, and no key of a stream turns up twice.

## Main definitions

* `Session.stream?` — the stream behind a source of keys.
* `Made` — a call of a run, with the session in which it is made.
* `Made.Declares`, `Made.Fails` — what comes of a call, as its source is read or not.
* `Session.made`, `Session.afterAll` — the calls of a run, and the session at its end.

## Main statements

* `Made.stream?_after`, `Made.sink_after` — the streams and the sinks after a call.
* `Session.exists_key_eq` — where in its stream the key of a call stands.
* `Session.sink_afterAll`, `Session.rules_afterAll` — what has arrived in a sink at the end of a
  run.
* `session_runs` — all this together.
-/

namespace ScopedStyles

deriving instance DecidableEq for KeySource, Target

variable {κ σ : Type}

/-! ## Streams and sinks -/

namespace Session

/-- The stream behind a source of keys. A constant has none. -/
def stream? (s : Session κ σ) : KeySource κ → Option KeyStream
  | .shared => some s.sharedKeys
  | .own name => some (s.streams name)
  | .constant _ => none

theorem exists_stream? (s : Session κ σ) {source : KeySource κ}
    (h : ∀ key, source ≠ .constant key) :
    ∃ stream, s.stream? source = some stream := by
  cases source with
  | shared => exact ⟨_, rfl⟩
  | own name => exact ⟨_, rfl⟩
  | constant key => exact absurd rfl (h key)

theorem eq_sheetCreated_of_mem_creation {s : Session κ σ} {target : Target σ} {event : Event}
    (h : event ∈ s.creation target) : event = .sheetCreated := by
  cases target with
  | shared =>
    rw [creation] at h
    split at h
    · cases h
    · exact List.mem_singleton.1 h
  | own name => cases h

/-- What is logged before the rules are offered is no warning and speaks of something else. -/
theorem opening_record (s : Session κ σ) (target : Target σ) (tree : RuleTree) (key : Text) :
    ∀ record ∈ (s.creation target ++ tree.events key).map Event.record,
      record.level ≠ "WARNING".toList ∧ record.topic ≠ "scopecss.css".toList := by
  have hlevel : "DEBUG".toList ≠ "WARNING".toList := by decide
  have hsheet : "scopecss.stylesheet".toList ≠ "scopecss.css".toList := by decide
  have hscanner : "scopecss.parser.scanner".toList ≠ "scopecss.css".toList := by decide
  have hgenerator : "scopecss.generator".toList ≠ "scopecss.css".toList := by decide
  refine List.forall_mem_map.2 (List.forall_mem_append.2 ⟨fun event hevent => ?_, ?_⟩)
  · rw [eq_sheetCreated_of_mem_creation hevent]
    exact ⟨hlevel, hsheet⟩
  · exact List.forall_mem_cons.2
      ⟨⟨hlevel, hscanner⟩, List.forall_mem_singleton.2 ⟨hlevel, hgenerator⟩⟩

section

variable [DecidableEq κ] (s : Session κ σ)

theorem draw_key {source : KeySource κ} {stream : KeyStream} (h : s.stream? source = some stream) :
    (s.draw source).1 = stream.draw.1 := by
  cases source <;> cases h <;> rfl

/-- One key is gone from the stream behind a source, and all other streams are as they were. -/
theorem stream?_draw (source other : KeySource κ) :
    (s.draw source).2.stream? other =
      if other = source then (s.stream? other).map (·.draw.2) else s.stream? other := by
  cases source <;> cases other <;> simp [draw, stream?]
  split <;> simp_all

theorem sink_draw (source : KeySource κ) (target : Target σ) :
    (s.draw source).2.sink target = s.sink target := by
  cases source <;> cases target <;> rfl

end

section

variable [DecidableEq σ] (s : Session κ σ) (sink : Sink) (target : Target σ)

/-- A sink that is put in place is found there, and the other sinks stay. -/
theorem sink_setSink (other : Target σ) :
    (s.setSink sink target).sink other = if other = target then sink else s.sink other := by
  cases target <;> cases other <;> simp [setSink, Session.sink]

theorem stream?_setSink (source : KeySource κ) :
    (s.setSink sink target).stream? source = s.stream? source := by
  cases target <;> cases source <;> rfl

end

end Session

/-! ## One call -/

/-- A call of a run, with the session in which it is made. -/
structure Made (κ σ : Type) where
  before : Session κ σ
  call : Call κ σ

namespace Made

variable [DecidableEq κ] [DecidableEq σ] (m : Made κ σ)

/-- The key that the call takes. -/
def key : Text :=
  (m.before.draw m.call.keys).1

/-- What comes of the call. -/
def outcome : Outcome :=
  (m.before.call m.call).1

/-- The session after the call. -/
def after : Session κ σ :=
  (m.before.call m.call).2

/-- What is logged during the call. -/
def log : List LogRecord :=
  m.outcome.events.map Event.record

/-- The sink of the call, as it is before the call. -/
def sink : Sink :=
  m.before.sink m.call.target

/-- The rules that arrive in the sink of the call. -/
def arrived : List Text :=
  match parse m.key m.call.source with
  | .ok tree => tree.texts.filter m.sink.accepts
  | .error _ => []

/-- The call takes the next key of its stream, and of no other stream. -/
structure TakesKey : Prop where
  key : ∀ stream, m.before.stream? m.call.keys = some stream → m.key = stream.draw.1
  streams : ∀ source, m.after.stream? source =
    if source = m.call.keys then (m.before.stream? source).map (·.draw.2)
    else m.before.stream? source

/-- The call hands on an error of its source, and all sinks stay as they are. -/
structure Fails (e : ParseError) : Prop where
  result : m.outcome.result = .error e
  sinks : ∀ target, (m.after.sink target).rules = (m.before.sink target).rules

/-- The call gives back its key. Of the rules of a tree, those that its sink accepts have arrived
there after what was there before, and all other sinks stay as they are. The log ends with a warning
for each refused rule and a record of how many have arrived. -/
structure Declares (tree : RuleTree) : Prop where
  result : m.outcome.result = .ok m.key
  rules : (m.after.sink m.call.target).rules =
    m.sink.rules ++ tree.texts.filter m.sink.accepts
  others : ∀ target ≠ m.call.target, m.after.sink target = m.before.sink target
  log : ∃ (opening : List LogRecord) (refused : List Text) (accepted : Nat),
    refused = tree.texts.filter (fun rule => !m.sink.accepts rule) ∧
    accepted + refused.length = tree.texts.length ∧
    (∀ record ∈ opening, record.level ≠ "WARNING".toList ∧ record.topic ≠ "scopecss.css".toList) ∧
    m.log = opening ++ refused.map (fun rule => ⟨"WARNING".toList, "scopecss.css".toList,
        "Stylesheet could not understand the following rule: ".toList ++ rule⟩) ++
      [⟨"DEBUG".toList, "scopecss.css".toList,
        "Inserted ".toList ++ Text.ofNat accepted ++ " of ".toList ++
          Text.ofNat tree.texts.length ++ " rule(s) for scope ".toList ++ m.key⟩]

variable {m}

theorem call_eq_of_error {e : ParseError} (h : parse m.key m.call.source = .error e) :
    m.before.call m.call = (⟨.error e, m.before.creation m.call.target⟩,
      (m.before.draw m.call.keys).2.setSink m.sink m.call.target) := by
  rw [key] at h
  simp [Session.call, h, sink]

theorem call_eq_of_ok {tree : RuleTree} (h : parse m.key m.call.source = .ok tree) :
    m.before.call m.call =
      (⟨.ok m.key, m.before.creation m.call.target ++ tree.events m.key ++
          (m.sink.offerAll tree.texts).2.map .refused ++
          [.inserted (tree.texts.length - (m.sink.offerAll tree.texts).2.length)
            tree.texts.length m.key]⟩,
        (m.before.draw m.call.keys).2.setSink (m.sink.offerAll tree.texts).1 m.call.target) := by
  rw [key] at h
  simp [Session.call, h, sink, key]

/-- The key is taken and the sink put back, with what has arrived, whether the source is read or
not. -/
theorem after_eq : m.after =
    (m.before.draw m.call.keys).2.setSink (m.sink.append m.arrived) m.call.target := by
  rw [after, arrived]
  cases h : parse m.key m.call.source with
  | error e => simp [call_eq_of_error h]
  | ok tree => simp [call_eq_of_ok h, Sink.offerAll_eq]

/-- Of the streams, only that of the call loses a key. -/
theorem stream?_after (source : KeySource κ) : m.after.stream? source =
    if source = m.call.keys then (m.before.stream? source).map (·.draw.2)
    else m.before.stream? source := by
  rw [after_eq, Session.stream?_setSink, Session.stream?_draw]

/-- Of the sinks, only that of the call takes in rules. -/
theorem sink_after (target : Target σ) : m.after.sink target =
    if target = m.call.target then m.sink.append m.arrived else m.before.sink target := by
  rw [after_eq, Session.sink_setSink, Session.sink_draw]

theorem accepts_after (target : Target σ) :
    (m.after.sink target).accepts = (m.before.sink target).accepts := by
  rw [sink_after]
  split
  · next h => rw [Sink.accepts_append, sink, h]
  · rfl

theorem rules_after (target : Target σ) : (m.after.sink target).rules =
    (m.before.sink target).rules ++ if m.call.target = target then m.arrived else [] := by
  rw [sink_after]
  split
  · next h => simp [sink, h]
  · next h => simp [Ne.symm h]

theorem fails {e : ParseError} (h : parse m.key m.call.source = .error e) : m.Fails e where
  result := by rw [outcome, call_eq_of_error h]
  sinks target := by simp [rules_after, arrived, h]

theorem takesKey : m.TakesKey where
  key _ h := m.before.draw_key h
  streams source := stream?_after source

theorem declares {tree : RuleTree} (h : parse m.key m.call.source = .ok tree) :
    m.Declares tree where
  result := by rw [outcome, call_eq_of_ok h]
  rules := by simp [rules_after, arrived, h, sink]
  others target htarget := by rw [sink_after, if_neg htarget]
  log := by
    have hlength : (tree.texts.filter fun rule => !m.sink.accepts rule).length ≤ tree.texts.length :=
      List.length_filter_le ..
    refine ⟨_, _, _, rfl, Nat.sub_add_cancel hlength,
      m.before.opening_record m.call.target tree m.key, ?_⟩
    rw [log, outcome, call_eq_of_ok h, Sink.offerAll_eq]
    simp only [List.map_append, List.map_map, List.map_singleton]
    rfl

end Made

/-! ## All calls -/

namespace Session

variable [DecidableEq κ] [DecidableEq σ] {s : Session κ σ}

/-- The calls of a run, each with the session that the calls before it have left. -/
def made (s : Session κ σ) : List (Call κ σ) → List (Made κ σ)
  | [] => []
  | c :: calls => ⟨s, c⟩ :: (Made.mk s c).after.made calls

/-- The session at the end of a run. -/
def afterAll (s : Session κ σ) : List (Call κ σ) → Session κ σ
  | [] => s
  | c :: calls => (Made.mk s c).after.afterAll calls

/-- The key of a call is one that its stream has not handed out before the run. -/
theorem exists_key_eq {calls : List (Call κ σ)} {m : Made κ σ} (hm : m ∈ s.made calls)
    {stream : KeyStream} (h : s.stream? m.call.keys = some stream) :
    ∃ i, stream.drawn ≤ i ∧ m.key = stream.key i := by
  induction calls generalizing s stream with
  | nil => cases hm
  | cons c calls ih =>
    rcases List.mem_cons.1 hm with rfl | hm
    · exact ⟨stream.drawn, le_rfl, s.draw_key h⟩
    · have hafter := (Made.mk s c).stream?_after m.call.keys
      rw [h] at hafter
      split at hafter
      · obtain ⟨i, hi, hkey⟩ := ih hm hafter
        exact ⟨i, Nat.le_of_succ_le hi, hkey⟩
      · exact ih hm hafter

/-- No two calls of a run get the same key of a stream. -/
theorem pairwise_key_ne (calls : List (Call κ σ)) :
    (s.made calls).Pairwise fun m m' => (∀ key, m.call.keys ≠ .constant key) →
      m.call.keys = m'.call.keys → m.key ≠ m'.key := by
  induction calls generalizing s with
  | nil => exact .nil
  | cons c calls ih =>
    refine List.pairwise_cons.2 ⟨fun m' hm' hstream hsame => ?_, ih⟩
    obtain ⟨stream, hbefore⟩ := s.exists_stream? hstream
    have hafter := (Made.mk s c).stream?_after m'.call.keys
    rw [if_pos hsame.symm, ← hsame, hbefore] at hafter
    obtain ⟨i, hi, hkey⟩ := exists_key_eq hm' (hsame ▸ hafter)
    rw [hkey]
    intro heq
    have hnumber : stream.drawn = i :=
      stream.key_injective ((s.draw_key hbefore).symm.trans heq)
    have hlater : stream.drawn + 1 ≤ i := hi
    omega

/-- At the end of a run, what all the calls to a sink have brought has arrived there, in the order
of the calls. -/
theorem sink_afterAll (calls : List (Call κ σ)) (target : Target σ) :
    (s.afterAll calls).sink target = (s.sink target).append
      (((s.made calls).filter (·.call.target = target)).flatMap Made.arrived) := by
  induction calls generalizing s with
  | nil => simp [afterAll, made]
  | cons c calls ih =>
    rw [afterAll, ih, Made.sink_after, made]
    by_cases h : target = c.target
    · simp [h, Made.sink, Sink.append_append]
    · simp [h, Ne.symm h]

theorem rules_afterAll (calls : List (Call κ σ)) (target : Target σ) :
    ((s.afterAll calls).sink target).rules = (s.sink target).rules ++
      ((s.made calls).filter (·.call.target = target)).flatMap Made.arrived := by
  rw [sink_afterAll, Sink.rules_append]

theorem accepts_of_mem_made {calls : List (Call κ σ)} {m : Made κ σ} (hm : m ∈ s.made calls)
    (target : Target σ) : (m.before.sink target).accepts = (s.sink target).accepts := by
  induction calls generalizing s with
  | nil => cases hm
  | cons c calls ih =>
    rcases List.mem_cons.1 hm with rfl | hm
    · rfl
    · rw [ih hm, Made.accepts_after]

end Session

/-- In a run of calls, each call takes one key from its stream. If its source is faulty, the error
is handed on and the sinks stay as they are. Otherwise the call gives back its key, the rules that
its sink accepts arrive there in their order, after all others, and the log tells how many did and
which were refused. What a sink accepts is the same during the whole run. No two calls get the same
key of a stream, and at the end each sink holds what the calls to it have brought, call by call. -/
theorem session_runs [DecidableEq κ] [DecidableEq σ] (s : Session κ σ) (calls : List (Call κ σ)) :
    (∀ m ∈ s.made calls, m.TakesKey ∧ (∀ e, parse m.key m.call.source = .error e → m.Fails e) ∧
      (∀ tree, parse m.key m.call.source = .ok tree → m.Declares tree) ∧
      ∀ target, (m.before.sink target).accepts = (s.sink target).accepts) ∧
    ((s.made calls).Pairwise fun m m' => (∀ key, m.call.keys ≠ .constant key) →
      m.call.keys = m'.call.keys → m.key ≠ m'.key) ∧
    ∀ target, ((s.afterAll calls).sink target).rules = (s.sink target).rules ++
      ((s.made calls).filter (·.call.target = target)).flatMap Made.arrived := by
  refine ⟨fun m hm => ⟨Made.takesKey, fun e => Made.fails, fun tree => Made.declares, ?_⟩,
    Session.pairwise_key_ne calls, Session.rules_afterAll calls⟩
  exact Session.accepts_of_mem_made hm

end ScopedStyles
