import DebugWire.Hex
import DebugWire.Json.Printer
import DebugWire.Wire.Event
import DebugWire.Wire.Reader

set_option autoImplicit false

/-!
# Frames as lines

A captured byte stream is shown as one JSON object a line, one for each frame and one for each
decoding error. Bytes are shown as hex text. A string that has come out of frames is its own
repaired text.

## Main definitions

* `DebugWire.Command.toJson`, `DebugWire.Event.toJson` — a frame as an object.
* `DebugWire.printStream` — the lines of a stream, and how many bytes are left over.
-/

namespace DebugWire

/-- The members that a command has besides its kind. -/
def Command.members : Command → List (String × Json)
  | setBreakpoint a | clearBreakpoint a => [("address", .number a)]
  | inputKey k => [("key", .string k)]
  | inputString t => [("text", .string t.repaired)]
  | requestMemory a b => [("from", .number a), ("to", .number b)]
  | setMemory a bytes => [("address", .number a), ("bytes", .string (Hex.ofBytes bytes))]
  | setRegister r v => [("register", .string r), ("value", .number v)]
  | _ => []

/-- A command as a JSON object. -/
def Command.toJson (c : Command) : Json := .object (("type", .string c.name) :: c.members)

/-- The members that an event has besides its kind. -/
def Event.members : Event → List (String × Json)
  | output t | errorOutput t => [("text", .string t)]
  | breakpointHit a => [("address", .number a)]
  | dumpResult t => [("json", .string t)]
  | memoryResult bytes | stackResult bytes => [("bytes", .string (Hex.ofBytes bytes))]
  | _ => []

/-- An event as a JSON object. -/
def Event.toJson (e : Event) : Json := .object (("type", .string e.name) :: e.members)

/-- The line of an item. -/
def itemLine {α : Type} (f : α → Json) : Item α → String
  | .value a => (f a).compact
  | .malformed cause => (Json.object [("error", .string cause.message)]).compact

/-- The lines of a stream, and the number of bytes at its end that are no complete frame. -/
def printStream {α : Type} (format : Format α) (f : α → Json) (bytes : Bytes) : List String × Nat :=
  let r := (Reader.empty.push bytes).drain format
  (r.1.map (itemLine f), r.2.size)

/-- The lines of a stream of commands. -/
def printCommands : Bytes → List String × Nat := printStream Command.format Command.toJson

/-- The lines of a stream of events. -/
def printEvents : Bytes → List String × Nat := printStream Event.format Event.toJson

end DebugWire
