import DebugWire.Json.Printer
import DebugWire.Wire.Tag
import DebugWire.Wire.Register

set_option autoImplicit false

/-!
# Faults

What can go wrong between a client, the engine and a device. A fault is a cause with its data; the
kind that programs tell it by and the wording are functions of the cause. A device may also raise a
fault of any kind in its own words.

## Main definitions

* `DebugWire.FaultKind` — the kinds of faults, with their names and codes.
* `DebugWire.InputKind` — the two kinds of input that a program waits for.
* `DebugWire.Fault` — the causes.
* `DebugWire.Fault.kind`, `DebugWire.Fault.message` — kind and wording of a cause.
-/

namespace DebugWire

/-! ## Kinds -/

/-- The kinds of faults. -/
inductive FaultKind where
  /-- A failure without a kind of its own. -/
  | general
  /-- A value outside of what a format or register can hold. -/
  | range
  /-- Bytes that are no frame. -/
  | decode
  /-- A command that is not allowed as the session stands. -/
  | violation
  /-- An access outside of device memory. -/
  | outOfRange
  /-- A failure of the device itself. -/
  | crash
  /-- A link that is not there. -/
  | connection
  /-- An answer that did not come in time. -/
  | timeout
  /-- An answer that cannot be understood. -/
  | protocol
  deriving DecidableEq

namespace FaultKind

/-- All kinds. -/
def all : List FaultKind :=
  [general, range, decode, violation, outOfRange, crash, connection, timeout, protocol]

/-- The name of a kind. -/
def name : FaultKind → String
  | general => "Error"
  | range => "RangeError"
  | decode => "DecodeError"
  | violation => "ProtocolViolation"
  | outOfRange => "AddressOutOfRange"
  | crash => "DeviceCrash"
  | connection => "ConnectionError"
  | timeout => "TimeoutError"
  | protocol => "ProtocolError"

/-- The kind of a name. -/
def ofName? (s : String) : Option FaultKind := all.find? fun k => k.name == s

/-- The code of a kind; the two general kinds have none. -/
def code? : FaultKind → Option String
  | general => none
  | range => none
  | decode => some "DECODE_ERROR"
  | violation => some "PROTOCOL_VIOLATION"
  | outOfRange => some "ADDRESS_OUT_OF_RANGE"
  | crash => some "DEVICE_CRASH"
  | connection => some "CONNECTION_ERROR"
  | timeout => some "TIMEOUT"
  | protocol => some "PROTOCOL_ERROR"

/-- Whether a kind belongs to the debug link, and not to any program. -/
def ofLink (k : FaultKind) : Bool := k.code?.isSome

end FaultKind

/-- The kinds of input that a program can wait for. -/
inductive InputKind where
  | key
  | string
  deriving DecidableEq

/-- The name of a kind of input. -/
def InputKind.name : InputKind → String
  | key => "key"
  | string => "string"

/-! ## Causes -/

/-- What went wrong. -/
inductive Fault where
  /-- A fault raised in the words of a device or a stream. -/
  | raised (kind : FaultKind) (text : String)
  /-- An access outside of the `limit` bytes of device memory. -/
  | outOfRange (address length limit : Number)
  /-- An address that a command cannot carry; `what` says which. -/
  | notAddress (what : String) (value : Number)
  /-- A breakpoint that is not at a 16-bit address. -/
  | notBreakpoint (value : Number)
  /-- A key that no device knows. -/
  | unsupportedKey (key : String)
  /-- A name that is no key. -/
  | unknownKey (name : String)
  /-- More bytes than one frame carries. -/
  | frameTooLong (length : Nat)
  /-- A value that does not fit the width of a register. -/
  | unfitValue (value : Number) (register : Register)
  /-- A name that is no register. -/
  | unknownRegister (name : String)
  /-- A memory range whose start is behind its end. -/
  | invertedRange (first limit : Number)
  /-- A value that a register cannot hold. -/
  | registerValue (value : Number) (register : Register)
  /-- Input while the program waits for none, or for the other kind. -/
  | unexpectedInput (given : InputKind) (awaited : Option InputKind)
  /-- A step while the program waits for input. -/
  | stepWhileWaiting (awaited : InputKind)
  /-- Bytes written where the memory buffer has no room for them. -/
  | bufferBounds
  /-- A command without a device to take it. -/
  | notConnected
  /-- The end of a device while an event of the kind was awaited. -/
  | closedWhileWaiting (event : EventTag)
  /-- An event that did not come in `limit` milliseconds. -/
  | timedOut (limit : Number) (event : EventTag)
  /-- A write that ends behind the last 16-bit address. -/
  | writeTooLong (length : Nat) (address : Number)
  /-- A query whose range starts behind its end. -/
  | rangeStart (first : Number)
  /-- A device program that cannot be started. -/
  | startFailed (command cause : String)
  /-- Event bytes that are no frame. -/
  | malformedEvent (text : String)
  /-- A register dump that is not JSON. -/
  | dumpSyntax (cause : String)
  /-- A register dump that is no object. -/
  | dumpShape
  /-- A register of a dump that is no whole number. -/
  | dumpNumber (field : String)
  /-- A register file of a dump that does not hold as many whole numbers as it should. -/
  | dumpNumbers (field : String) (length : Nat)
  /-- A flag of a dump that is no truth value. -/
  | dumpFlag (field : String)
  deriving DecidableEq

namespace Fault

/-- The kind of a cause. -/
def kind : Fault → FaultKind
  | raised k _ => k
  | outOfRange .. => .outOfRange
  | notAddress .. | notBreakpoint _ | unsupportedKey _ | unknownKey _ | frameTooLong _
  | unfitValue ..
  | unknownRegister _ | bufferBounds | writeTooLong .. | rangeStart _ => .range
  | invertedRange .. | registerValue .. | unexpectedInput .. | stepWhileWaiting _ => .violation
  | notConnected | closedWhileWaiting _ | startFailed .. => .connection
  | timedOut .. => .timeout
  | malformedEvent _ | dumpSyntax _ | dumpShape | dumpNumber _ | dumpNumbers .. | dumpFlag _ =>
    .protocol

/-- A number in base sixteen behind `0x`. -/
def hexNumber (x : Number) : String := "0x" ++ x.hex

/-- A natural number in decimal. -/
def decimal (n : Nat) : String := String.ofList (Digits.text 10 n)

/-- The wording of a cause. -/
def message : Fault → String
  | raised _ text => text
  | outOfRange address length limit =>
    "Access of " ++ length.text ++ " byte(s) at " ++ hexNumber address ++ " exceeds device memory ("
      ++ hexNumber limit ++ " bytes)"
  | notAddress what value => what ++ " must be a 16-bit address, got " ++ value.text
  | notBreakpoint value => "Breakpoint address must be 16-bit, got " ++ value.text
  | unsupportedKey key => "Unsupported key: " ++ Json.quote key
  | unknownKey name => "Unsupported key: " ++ name
  | frameTooLong length =>
    "A single set-memory frame carries at most 255 bytes, got " ++ decimal length
  | unfitValue value register =>
    "Value " ++ value.text ++ " does not fit register " ++ register.name
  | unknownRegister name => "Unknown register: " ++ name
  | invertedRange first limit =>
    "Invalid memory range: start " ++ hexNumber first ++ " is after end " ++ hexNumber limit
  | registerValue value register =>
    "Value " ++ value.text ++ " is out of range for register " ++ register.name
  | unexpectedInput given none =>
    "Unexpected " ++ given.name ++ " input: the program is not waiting for input"
  | unexpectedInput given (some awaited) =>
    "Unexpected " ++ given.name ++ " input: the program is waiting for a " ++ awaited.name
  | stepWhileWaiting awaited =>
    "Step refused: the program is waiting for " ++ awaited.name ++ " input"
  | bufferBounds => "offset is out of bounds"
  | notConnected => "Device not connected"
  | closedWhileWaiting event => "Device closed while waiting for " ++ event.name
  | timedOut limit event => "Timed out after " ++ limit.text ++ "ms waiting for " ++ event.name
  | writeTooLong length address =>
    "Write of " ++ decimal length ++ " bytes at " ++ hexNumber address ++ " exceeds 16-bit memory"
  | rangeStart first => "Range start " ++ hexNumber first ++ " is after its end"
  | startFailed command cause => "Failed to start " ++ command ++ ": " ++ cause
  | malformedEvent text => text
  | dumpSyntax cause => "Dump is not valid JSON: " ++ cause
  | dumpShape => "Dump must be a JSON object"
  | dumpNumber field => "Dump field \"" ++ field ++ "\" must be an integer"
  | dumpNumbers field length =>
    "Dump field \"" ++ field ++ "\" must hold " ++ decimal length ++ " integers"
  | dumpFlag field => "Dump field \"" ++ field ++ "\" must be a boolean"

end Fault

end DebugWire
