set_option autoImplicit false

/-!
# Log entries

What a part of the system notes about its work. A log is written to the error channel under the name
of its part; notes for debugging only when asked for.

## Main definitions

* `DebugWire.Log` — a note with its level.
* `DebugWire.Log.line?` — the line of a note.
-/

namespace DebugWire

/-- How much a note matters. -/
inductive LogLevel where
  | debug
  | info
  | warn
  | error
  deriving DecidableEq

namespace LogLevel

/-- All levels. -/
def all : List LogLevel := [debug, info, warn, error]

/-- The name of a level. -/
def name : LogLevel → String
  | debug => "debug"
  | info => "info"
  | warn => "warn"
  | error => "error"

/-- The level of a name. -/
def ofName? (s : String) : Option LogLevel := all.find? fun l => l.name == s

end LogLevel

/-- A note. -/
structure Log where
  /-- How much it matters. -/
  level : LogLevel
  /-- What it says. -/
  text : String
  deriving DecidableEq

/-- The line of a note under the name `scope`; a note for debugging has one only if `verbose`. -/
def Log.line? (scope : String) (verbose : Bool) (log : Log) : Option String :=
  match log.level with
  | .debug => if verbose then some ("[" ++ scope ++ "] " ++ log.text) else none
  | .info => some ("[" ++ scope ++ "] " ++ log.text)
  | .warn => some ("[" ++ scope ++ "] warning: " ++ log.text)
  | .error => some ("[" ++ scope ++ "] error: " ++ log.text)

end DebugWire
