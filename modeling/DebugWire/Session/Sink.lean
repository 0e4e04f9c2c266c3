import DebugWire.Fault
import DebugWire.Text.Utf8

set_option autoImplicit false

/-!
# Sinks

The writing end of a byte stream. It may be set up so that its first write fails. The failure is not
seen at once: what is written in the meantime is lost, and the failure is reported when the work at
hand is done. A sink that has failed or ended takes nothing more.

## Main definitions

* `DebugWire.Sink` — the writing end.
* `DebugWire.Sink.write`, `DebugWire.Sink.finish`, `DebugWire.Sink.fail` — its operations.
* `DebugWire.Sink.settle` — the failure that is due to be reported.
-/

namespace DebugWire

/-- What a sink does with bytes. -/
inductive SinkState where
  /-- It takes them. -/
  | ready
  /-- A write has failed with a message that is still to be reported. -/
  | failing (message : String)
  /-- It has failed. -/
  | failed
  /-- It was ended. -/
  | ended
  deriving DecidableEq

/-- The writing end of a byte stream. -/
structure Sink where
  /-- What it does with bytes. -/
  state : SinkState
  /-- The message with which the first write fails. -/
  failure : Option String
  deriving DecidableEq

namespace Sink

/-- A sink at its start. -/
def fresh (failure : Option String) : Sink := ⟨.ready, failure⟩

/-- Writes bytes: the sink afterwards, and whether the write was made. -/
def write (s : Sink) : Sink × Bool :=
  match s.state with
  | .ready =>
    match s.failure with
    | some message => (⟨.failing message, none⟩, true)
    | none => (s, true)
  | _ => (s, false)

/-- Ends the sink: the sink afterwards, and whether it had still been open. -/
def finish (s : Sink) : Sink × Bool :=
  match s.state with
  | .ready => ({ s with state := .ended }, true)
  | _ => (s, false)

/-- Fails the sink from outside: the sink afterwards, and whether it had still been open. -/
def fail (s : Sink) : Sink × Bool :=
  match s.state with
  | .ready => ({ s with state := .failed }, true)
  | _ => (s, false)

/-- Whether the sink was ended. -/
def isEnded (s : Sink) : Bool := s.state = .ended

/-- The sink with its failure reported, and the failure. -/
def settle (s : Sink) : Sink × Option String :=
  match s.state with
  | .failing message => ({ s with state := .failed }, some message)
  | _ => (s, none)

end Sink

end DebugWire
