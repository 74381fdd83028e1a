import ScopedStyles.Key.Stream

/-!
# Settings

The alphabet and the lead of scope keys, and how much is logged. The lead and the log level can be
set from the environment.

## Main definitions

* `LogLevel` — the levels by name.
* `Settings.ofEnvironment` — the settings in an environment.
-/

namespace ScopedStyles

/-- How much is logged: records at or above a level. Two of the levels have two names. -/
inductive LogLevel
  | critical
  | fatal
  | error
  | warn
  | warning
  | info
  | debug
  | notset
  deriving DecidableEq, Repr

namespace LogLevel

/-- The levels. -/
def all : List LogLevel :=
  [critical, fatal, error, warn, warning, info, debug, notset]

/-- The name of a level. -/
def name : LogLevel → Text
  | critical => "CRITICAL".toList
  | fatal => "FATAL".toList
  | error => "ERROR".toList
  | warn => "WARN".toList
  | warning => "WARNING".toList
  | info => "INFO".toList
  | debug => "DEBUG".toList
  | notset => "NOTSET".toList

/-- The capital of a letter, where that is one of the letters from A to Z. The dotless i and the
long s have such capitals too. -/
def capital (c : Char) : Char :=
  if c = 'ı' then 'I' else if c = 'ſ' then 'S' else c.toUpper

/-- The level of a name, which may be written in small letters. -/
def ofText? (t : Text) : Option LogLevel :=
  all.find? fun level => level.name = t.map capital

/-- Whether debug records are logged. -/
def showsDebug : LogLevel → Bool
  | debug | notset => true
  | _ => false

end LogLevel

/-- The letters that may stand in the name of a class. -/
def Alphabet.ofClassNames : Alphabet where
  letters := "_-abcdefghijklmnopqrstuvwxyz0123456789".toList
  letters_ne_nil := by decide
  nodup_letters := by decide

/-- What can be set. -/
structure Settings where
  alphabet : Alphabet := .ofClassNames
  /-- What every scope key starts with. -/
  lead : Text := ['_']
  level : LogLevel := .warning

/-- The values of environment variables. -/
abbrev Environment := Text → Option Text

namespace Settings

/-- The settings in an environment. A level of an unknown name does not count. -/
def ofEnvironment (env : Environment) : Settings :=
  let defaults : Settings := {}
  { lead := (env "SCOPECSS_PREFIX".toList).getD defaults.lead
    level := ((env "SCOPECSS_LOG_LEVEL".toList).bind LogLevel.ofText?).getD defaults.level }

/-- The stream of scope keys, from its first key. -/
def keys (s : Settings) : KeyStream where
  alphabet := s.alphabet
  lead := s.lead

end Settings

/-- The stream that keys come from where no other is named. -/
def KeyStream.shared : KeyStream :=
  ({} : Settings).keys

end ScopedStyles
