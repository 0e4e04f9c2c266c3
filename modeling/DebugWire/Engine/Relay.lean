import DebugWire.Machine.Basic

set_option autoImplicit false

/-!
# Relay

The relay stands between a machine and its client. While it is attached, it turns every text that
the machine prints into an event, an empty text excepted. It also keeps the one request for input
that is open, and lets only input of that kind through to the machine.

## Main definitions

* `DebugWire.Relay` — the relay.
* `DebugWire.Relay.events` — the events of printed texts.
* `DebugWire.Relay.request` — a request opened.
* `DebugWire.Relay.supply` — input given to the machine.
-/

namespace DebugWire

/-- The relay between a machine and its client. -/
structure Relay where
  /-- Whether printed text is relayed. -/
  attached : Bool
  /-- The kind of input that is asked for. -/
  pending : Option InputKind
  deriving DecidableEq

/-- Input for a program. -/
inductive Input where
  | key (key : String)
  | string (text : Utf16)
  deriving DecidableEq

namespace Input

/-- The kind of an input. -/
def kind : Input → InputKind
  | key _ => .key
  | string _ => .string

/-- Gives an input to a machine. -/
def deliver (i : Input) (m : Machine) : Machine.Call RunResult :=
  match i with
  | key k => m.supplyKey k
  | string t => m.supplyString t

end Input

/-- The event that asks for input. -/
def InputKind.requested : InputKind → Event
  | key => .keyRequested
  | string => .stringRequested

namespace Relay

/-- A relay that is not attached. -/
def detached : Relay := ⟨false, none⟩

/-- The relay with printed text let through. -/
def attach (r : Relay) : Relay := { r with attached := true }

/-- The relay with printed text held back. -/
def detach (r : Relay) : Relay := { r with attached := false }

/-- The events of printed texts, in order. -/
def events (r : Relay) (printed : List Printed) : List Event :=
  if r.attached then
    (printed.filter fun p => !p.2.isEmpty).map fun p => p.1.event p.2
  else []

/-- The relay with input of a kind asked for, and the event that says so. A request that was open
before is dropped. -/
def request (r : Relay) (kind : InputKind) : Relay × Event :=
  ({ r with pending := some kind }, kind.requested)

/-- The fault of input that is not asked for. -/
def refusal (r : Relay) (kind : InputKind) : Option Fault :=
  if r.pending = some kind then none else some (.unexpectedInput kind r.pending)

/-- Gives input to the machine if it is asked for, which closes the request. -/
def supply (r : Relay) (m : Machine) (i : Input) : Relay × Machine.Call RunResult :=
  match r.refusal i.kind with
  | some f => (r, .fault m f)
  | none => ({ r with pending := none }, i.deliver m)

end Relay

end DebugWire
