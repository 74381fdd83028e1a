import ScopedStyles.Event
import ScopedStyles.Settings
import ScopedStyles.Sheet
import ScopedStyles.Source.Parse

/-!
# Declaring styles

A call declares a block of scoped styles: it takes a scope key, reads the source under it and
offers the rules, one after the other, to a sink. A session holds the streams that keys come from
and the sinks that rules go to, among them one stream and one sheet that are shared by all calls
that name no other.

## Main definitions

* `Sink.offerAll` — offers rules to a sink.
* `Session.call` — one call.
-/

namespace ScopedStyles

/-- Where rules go. -/
inductive Sink
  | sheet (sheet : Sheet)
  /-- A list of the rules that it accepts. -/
  | recorder (accepts : Text → Bool) (rules : List Text)

namespace Sink

/-- The rules that have arrived. -/
def rules : Sink → List Text
  | .sheet s => s.rules
  | .recorder _ rules => rules

/-- The sink after it has been offered a rule, if it accepts the rule. -/
def offer (sink : Sink) (rule : Text) : Option Sink :=
  match sink with
  | .sheet s => (s.insert rule none).toOption.map fun inserted => .sheet inserted.1
  | .recorder accepts rules =>
    if accepts rule then some (.recorder accepts (rules ++ [rule])) else none

/-- The sink after it has been offered rules, and the rules that it refused. -/
def offerAll (sink : Sink) : List Text → Sink × List Text
  | [] => (sink, [])
  | rule :: rules =>
    match sink.offer rule with
    | some sink => sink.offerAll rules
    | none =>
      let (sink, refused) := sink.offerAll rules
      (sink, rule :: refused)

end Sink

/-- Where a call takes its key from. -/
inductive KeySource (κ : Type)
  | shared
  | own (stream : κ)
  | constant (key : Text)

/-- Where the rules of a call go. -/
inductive Target (σ : Type)
  | shared
  | own (sink : σ)

/-- A block of scoped styles to be declared. -/
structure Call (κ σ : Type) where
  source : Text
  keys : KeySource κ := .shared
  target : Target σ := .shared

/-- What comes of a call: the scope key or the error of the source, and the events in their
order. -/
structure Outcome where
  result : Except ParseError Text
  events : List Event

/-- The streams and sinks of a program. The shared sheet comes into being when it is first
needed. -/
structure Session (κ σ : Type) where
  sharedKeys : KeyStream := .shared
  sharedSheet : Option Sink := none
  streams : κ → KeyStream
  sinks : σ → Sink

namespace Session

variable {κ σ : Type} [DecidableEq κ] [DecidableEq σ]

/-- Takes a key. -/
def draw (s : Session κ σ) : KeySource κ → Text × Session κ σ
  | .shared => (s.sharedKeys.draw.1, { s with sharedKeys := s.sharedKeys.draw.2 })
  | .own k =>
    let (key, stream) := (s.streams k).draw
    (key, { s with streams := fun k' => if k' = k then stream else s.streams k' })
  | .constant key => (key, s)

/-- The sink of a target. -/
def sink (s : Session κ σ) : Target σ → Sink
  | .shared => s.sharedSheet.getD (.sheet .shared)
  | .own name => s.sinks name

/-- Puts a sink in the place of the one that a target names. -/
def setSink (s : Session κ σ) (sink : Sink) : Target σ → Session κ σ
  | .shared => { s with sharedSheet := some sink }
  | .own name => { s with sinks := fun name' => if name' = name then sink else s.sinks name' }

/-- The event of a target that comes into being now. -/
def creation (s : Session κ σ) : Target σ → List Event
  | .shared => if s.sharedSheet.isSome then [] else [.sheetCreated]
  | .own _ => []

/-- Declares a block of scoped styles. The key is taken, and the shared sheet created, even if the
source turns out to be faulty. -/
def call (s : Session κ σ) (c : Call κ σ) : Outcome × Session κ σ :=
  let (key, s') := s.draw c.keys
  match parse key c.source with
  | .error e => (⟨.error e, s.creation c.target⟩, s'.setSink (s.sink c.target) c.target)
  | .ok tree =>
    let (sink, refused) := (s.sink c.target).offerAll tree.texts
    let total := tree.texts.length
    let events := s.creation c.target ++ tree.events key ++ refused.map .refused ++
      [.inserted (total - refused.length) total key]
    (⟨.ok key, events⟩, s'.setSink sink c.target)

end Session

end ScopedStyles
