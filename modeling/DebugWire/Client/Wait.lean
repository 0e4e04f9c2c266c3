import DebugWire.Machine.Snapshot
import DebugWire.Wire.Event

set_option autoImplicit false

/-!
# Waits

A client that has asked the device for something waits for the next event of the kind that answers
it. A wait ends with that event, with the end of the device, or when its time is over, whichever
comes first.

For its time it sets a timer of the platform. Such a timer counts whole milliseconds, from one to a
limit; any other time counts as one millisecond, be it shorter, longer or no number. What is over a
whole millisecond is cut.

## Main definitions

* `DebugWire.Answer` — what a wait hands to its caller.
* `DebugWire.Wanted` — which part of an event a caller wants.
* `DebugWire.Wait` — a wait that has not ended.
* `DebugWire.Wait.delay` — the time after which the timer of a wait goes off.
* `DebugWire.Wait.due` — the waits whose time is over, in the order in which they end.
-/

namespace DebugWire

/-- What a wait hands to its caller. -/
inductive Answer where
  /-- The event itself. -/
  | event (e : Event)
  /-- The registers that the event carries. -/
  | snapshot (s : Snapshot)
  /-- The bytes that the event carries. -/
  | bytes (bytes : Bytes)
  deriving DecidableEq

/-- Which part of an event a caller wants. -/
inductive Wanted where
  /-- The event itself. -/
  | event
  /-- The registers that it carries. -/
  | snapshot
  /-- The bytes that it carries. -/
  | bytes
  deriving DecidableEq

/-- The wanted part of an event. -/
def Wanted.part (wanted : Wanted) (e : Event) : Except Fault Answer :=
  match wanted, e with
  | .snapshot, .dumpResult json => (Snapshot.parse json).map .snapshot
  | .bytes, .memoryResult payload | .bytes, .stackResult payload => .ok (.bytes payload)
  | _, e => .ok (.event e)

/-- A wait that has not ended. -/
structure Wait where
  /-- The call that gets the answer; nothing if that call has failed in the meantime. -/
  call : Option Nat
  /-- The kind of event that is awaited. -/
  tag : EventTag
  /-- Which part of the event the call wants. -/
  wanted : Wanted
  /-- The time that the wait may take, in milliseconds. -/
  limit : Number
  /-- The time at which its timer goes off. -/
  deadline : Number
  deriving DecidableEq

namespace Wait

/-- The longest time that a timer takes, in milliseconds. -/
def longest : Nat := 0x7fffffff

/-- The time after which a timer goes off that is set to the given one. It is cut to whole
milliseconds, and one that is below a millisecond, above the longest or no number counts as a
millisecond. -/
def delay (limit : Number) : Number :=
  match limit.truncate with
  | some n => if Number.le 1 limit && limit.le longest then .whole n else 1
  | none => 1

/-- Whether an event ends the wait. -/
def awaits (w : Wait) (e : Event) : Bool := w.tag = e.tag

/-- Whether the time of the wait is over at a time. -/
def isDue (now : Number) (w : Wait) : Bool := w.deadline.le now

/-- The waits whose time is over, the earliest deadline first; equal deadlines keep their order. -/
def due (now : Number) (waits : List Wait) : List Wait :=
  (waits.filter (isDue now)).mergeSort fun v w => v.deadline.le w.deadline

end Wait

end DebugWire
