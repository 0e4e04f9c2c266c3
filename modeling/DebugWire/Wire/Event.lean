import DebugWire.Fault
import DebugWire.Wire.Chunk
import DebugWire.Wire.Command
import DebugWire.Wire.Decoding

set_option autoImplicit false

/-!
# Events

What the device tells the client, and its frames.

## Main definitions

* `DebugWire.Event` — the events.
* `DebugWire.Event.encode` — the frames of an event.
* `DebugWire.Event.decode` — the event at the front of bytes.
* `DebugWire.Event.format` — the decoder of the direction from the device.
-/

namespace DebugWire

/-- What the device tells the client. -/
inductive Event where
  /-- Text that the program has printed. -/
  | output (text : String)
  /-- Text that the program has printed on its error channel, or what is wrong with a command. -/
  | errorOutput (text : String)
  /-- A step that was not done because of the breakpoint at an address. -/
  | breakpointHit (address : Number)
  /-- The registers, as text. -/
  | dumpResult (json : String)
  /-- Bytes of memory. -/
  | memoryResult (bytes : Bytes)
  /-- Bytes of the stack. -/
  | stackResult (bytes : Bytes)
  /-- The program waits for a key. -/
  | keyRequested
  /-- The program waits for a string. -/
  | stringRequested
  /-- The program has come to its end. -/
  | endOfProgram
  /-- The program has failed. -/
  | crashed
  deriving DecidableEq

namespace Event

/-- The kind of an event. -/
def tag : Event → EventTag
  | output _ => .output
  | errorOutput _ => .errorOutput
  | breakpointHit _ => .breakpointHit
  | dumpResult _ => .dumpResult
  | memoryResult _ => .memoryResult
  | stackResult _ => .stackResult
  | keyRequested => .keyRequested
  | stringRequested => .stringRequested
  | endOfProgram => .endOfProgram
  | crashed => .crashed

/-- The name of the kind of an event. -/
def name (e : Event) : String := e.tag.name

/-! ## Encoding -/

/-- The bytes that an event carries as a chunked payload, if it carries one. -/
def payload? : Event → Option Bytes
  | output text => some (Utf8.encode text)
  | errorOutput text => some (Utf8.encode text)
  | dumpResult json => some (Utf8.encode json)
  | memoryResult bytes => some bytes
  | stackResult bytes => some bytes
  | _ => none

/-- The frames of an event. -/
def encode (e : Event) : Except Fault Bytes :=
  match e.payload? with
  | some payload => .ok (Chunk.encode e.tag.byte payload)
  | none =>
    match e with
    | breakpointHit address =>
      match address.within? 0xffff with
      | some n => .ok (e.tag.byte :: bytes16 n)
      | none => .error (.notBreakpoint address)
    | e => .ok [e.tag.byte]

/-! ## Decoding -/

/-- Whether a byte opens an event. -/
def opens (b : UInt8) : Bool := (EventTag.ofByte? b).isSome

/-- The event with the given first byte and a chunked payload. -/
def decodeChunked (first : UInt8) (rest : Bytes) (make : Bytes → Event) : Decoded Event :=
  match Chunk.readFrom? first (first :: rest) with
  | some (payload, n) => .value (make payload) n
  | none => .incomplete

/-- The event with the given first byte and tag; `rest` follows that byte. -/
def decodeTagged (first : UInt8) (tag : EventTag) (rest : Bytes) : Decoded Event :=
  match tag with
  | .output => decodeChunked first rest fun p => output (Utf8.decode p)
  | .errorOutput => decodeChunked first rest fun p => errorOutput (Utf8.decode p)
  | .dumpResult => decodeChunked first rest fun p => dumpResult (Utf8.decode p)
  | .memoryResult => decodeChunked first rest memoryResult
  | .stackResult => decodeChunked first rest stackResult
  | .breakpointHit =>
    match rest with
    | h :: l :: _ => .value (breakpointHit (number16 h l)) 3
    | _ => .incomplete
  | .keyRequested => .value keyRequested 1
  | .stringRequested => .value stringRequested 1
  | .endOfProgram => .value endOfProgram 1
  | .crashed => .value crashed 1

/-- The event at the front of bytes. -/
def decode : Bytes → Decoded Event
  | [] => .incomplete
  | first :: rest =>
    match EventTag.ofByte? first with
    | none => resync .event opens first rest
    | some tag => decodeTagged first tag rest

/-- Reading a payload in chunks takes some bytes, unless it waits for more. -/
theorem decodeChunked_consumed {first : UInt8} {rest : Bytes} {make : Bytes → Event} :
    decodeChunked first rest make = .incomplete ∨ 0 < (decodeChunked first rest make).consumed := by
  simp only [decodeChunked]
  split
  · rename_i h
    have := Chunk.two_le_of_readFrom? h
    right
    simp only [Decoded.consumed]
    omega
  · exact .inl rfl

/-- A decoder of events that does not wait for more bytes takes some.

**Proof sketch.** By the first byte: one that opens no event is skipped, and behind the others each
kind takes its byte at least. -/
theorem decode_consumed (bytes : Bytes) :
    decode bytes = .incomplete ∨ 0 < (decode bytes).consumed := by
  cases bytes with
  | nil => exact .inl rfl
  | cons first rest =>
    simp only [decode]
    split
    · right
      simp only [resync, Decoded.consumed]
      omega
    · rename_i tag _
      cases tag <;> simp only [decodeTagged] <;> first
        | exact decodeChunked_consumed
        | (split <;> simp [Decoded.consumed])
        | simp [Decoded.consumed]

/-- The decoder of the direction from the device. -/
def format : Format Event where
  decode := decode
  decode_nil := rfl
  value_pos {bytes _ _} h := by
    have := decode_consumed bytes
    simpa [h, Decoded.consumed] using this
  malformed_pos {bytes _ _} h := by
    have := decode_consumed bytes
    simpa [h, Decoded.consumed] using this

end Event

end DebugWire
