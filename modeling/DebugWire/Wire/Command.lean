import DebugWire.Fault
import DebugWire.Text.Units
import DebugWire.Wire.Chunk
import DebugWire.Wire.Decoding
import DebugWire.Wire.Key

set_option autoImplicit false

/-!
# Commands

What the client tells the device, and its frames. Addresses and register values are checked when a
command is encoded, so a command may hold any number until then; the bytes of a decoded command hold
numbers that fit. A string is not checked: whatever its units are, its frames carry its repaired
text.

## Main definitions

* `DebugWire.Command` — the commands.
* `DebugWire.Command.carried` — the command that its frames carry.
* `DebugWire.Command.encode` — the frame of a command.
* `DebugWire.Command.decode` — the command at the front of bytes.
* `DebugWire.Command.format` — the decoder of the direction to the device.
-/

namespace DebugWire

/-- A 16-bit number as two bytes, the high one first. -/
def bytes16 (n : Nat) : Bytes := [UInt8.ofNat (n / 256), UInt8.ofNat (n % 256)]

/-- The number of two bytes, the high one first. -/
def number16 (high low : UInt8) : Number := ((high.toNat * 256 + low.toNat : Nat) : Number)

/-- What the client tells the device. -/
inductive Command where
  /-- Execute one instruction, unless there is a breakpoint at it. -/
  | step
  /-- Execute one instruction. -/
  | stepIgnoringBreakpoints
  /-- End the session. -/
  | stop
  /-- Put a breakpoint at an address. -/
  | setBreakpoint (address : Number)
  /-- Remove the breakpoint at an address. -/
  | clearBreakpoint (address : Number)
  /-- Ask for the registers. -/
  | requestDump
  /-- Give the key that the program waits for. -/
  | inputKey (key : String)
  /-- Give the string that the program waits for. -/
  | inputString (text : Utf16)
  /-- Ask for the bytes from `first` up to but without `limit`. -/
  | requestMemory (first limit : Number)
  /-- Ask for the bytes of the stack. -/
  | requestStack
  /-- Write bytes into memory. -/
  | setMemory (address : Number) (bytes : Bytes)
  /-- Write the register of a name. -/
  | setRegister (register : String) (value : Number)
  deriving DecidableEq

namespace Command

/-- The kind of a command. -/
def tag : Command → CommandTag
  | step => .step
  | stepIgnoringBreakpoints => .stepIgnoringBreakpoints
  | stop => .stop
  | setBreakpoint _ => .setBreakpoint
  | clearBreakpoint _ => .clearBreakpoint
  | requestDump => .requestDump
  | inputKey _ => .inputKey
  | inputString _ => .inputString
  | requestMemory .. => .requestMemory
  | requestStack => .requestStack
  | setMemory .. => .setMemory
  | setRegister .. => .setRegister

/-- The name of the kind of a command. -/
def name (c : Command) : String := c.tag.name

/-- The command that the frames of a command carry: a string has its repaired text, and any other
command stays. -/
def carried : Command → Command
  | inputString text => inputString text.repaired
  | c => c

/-! ## Encoding -/

/-- The two bytes of an address, which `what` describes in the fault of a number that is none. -/
def encodeAddress (what : String) (address : Number) : Except Fault Bytes :=
  match address.within? 0xffff with
  | some n => .ok (bytes16 n)
  | none => .error (.notAddress what address)

/-- The byte of a supported key. -/
def encodeKey (key : String) : Except Fault UInt8 :=
  match key.toList with
  | [c] => if Key.isKey c then .ok (UInt8.ofNat c.toNat) else .error (.unsupportedKey key)
  | _ => .error (.unsupportedKey key)

/-- The number of the register and the value in as many bytes as it is wide. -/
def encodeRegister (register : String) (value : Number) : Except Fault Bytes :=
  match Register.ofName? register with
  | none => .error (.unknownRegister register)
  | some r =>
    match value.within? r.widthLimit with
    | none => .error (.unfitValue value r)
    | some n => .ok (r.id :: if r.width = 1 then [UInt8.ofNat n] else bytes16 n)

/-- What follows the first byte in the frame of a command. -/
def encodeBody : Command → Except Fault Bytes
  | step | stepIgnoringBreakpoints | stop | requestDump | requestStack => .ok []
  | setBreakpoint address | clearBreakpoint address => encodeAddress "Breakpoint" address
  | inputKey key => (encodeKey key).map ([·])
  | inputString _ => .ok []
  | requestMemory first limit => do
    let a ← encodeAddress "Range start" first
    let b ← encodeAddress "Range end" limit
    .ok (a ++ b)
  | setMemory address bytes => do
    let a ← encodeAddress "Memory address" address
    if Chunk.maxSize < bytes.length then .error (.frameTooLong bytes.length)
    else .ok (a ++ UInt8.ofNat bytes.length :: bytes)
  | setRegister register value => encodeRegister register value

/-- The frame of a command; a string takes as many frames as its bytes need. -/
def encode (c : Command) : Except Fault Bytes :=
  match c with
  | inputString text => .ok (Chunk.encode c.tag.byte (Utf8.encode text.repaired))
  | c => (encodeBody c).map (c.tag.byte :: ·)

/-! ## Decoding -/

/-- Whether a byte opens a command. -/
def opens (b : UInt8) : Bool := (CommandTag.ofByte? b).isSome

/-- The command with the given first byte and tag; `rest` follows that byte. -/
def decodeTagged (first : UInt8) (tag : CommandTag) (rest : Bytes) : Decoded Command :=
  match tag with
  | .step => .value step 1
  | .stepIgnoringBreakpoints => .value stepIgnoringBreakpoints 1
  | .stop => .value stop 1
  | .requestDump => .value requestDump 1
  | .requestStack => .value requestStack 1
  | .setBreakpoint =>
    match rest with
    | h :: l :: _ => .value (setBreakpoint (number16 h l)) 3
    | _ => .incomplete
  | .clearBreakpoint =>
    match rest with
    | h :: l :: _ => .value (clearBreakpoint (number16 h l)) 3
    | _ => .incomplete
  | .inputKey =>
    match rest with
    | [] => .incomplete
    | code :: _ =>
      if Key.isKey (Char.ofNat code.toNat) then
        .value (inputKey (Key.ofChar (Char.ofNat code.toNat))) 2
      else .malformed (.unsupportedKey code) 2
  | .inputString =>
    match Chunk.readFrom? first (first :: rest) with
    | some (payload, n) => .value (inputString (Utf8.decode payload)) n
    | none => .incomplete
  | .requestMemory =>
    match rest with
    | h₁ :: l₁ :: h₂ :: l₂ :: _ => .value (requestMemory (number16 h₁ l₁) (number16 h₂ l₂)) 5
    | _ => .incomplete
  | .setMemory =>
    match rest with
    | h :: l :: length :: more =>
      let bytes := more.take length.toNat
      if bytes.length < length.toNat then .incomplete
      else .value (setMemory (number16 h l) bytes) (4 + length.toNat)
    | _ => .incomplete
  | .setRegister =>
    match rest with
    | [] => .incomplete
    | id :: more =>
      match Register.ofId? id with
      | none => .malformed (.unknownRegister id) 2
      | some r =>
        if r.width = 1 then
          match more with
          | b :: _ => .value (setRegister r.name (b.toNat : Number)) 3
          | [] => .incomplete
        else
          match more with
          | h :: l :: _ => .value (setRegister r.name (number16 h l)) 4
          | _ => .incomplete

/-- The command at the front of bytes. -/
def decode : Bytes → Decoded Command
  | [] => .incomplete
  | first :: rest =>
    match CommandTag.ofByte? first with
    | none => resync .command opens first rest
    | some tag => decodeTagged first tag rest

/-- Every result but waiting gives up at least one byte. -/
theorem decodeTagged_consumed {first : UInt8} {tag : CommandTag} {rest : Bytes} :
    decodeTagged first tag rest = .incomplete ∨ 0 < (decodeTagged first tag rest).consumed := by
  cases tag <;> simp only [decodeTagged] <;> (repeat' split) <;>
    simp_all only [Decoded.consumed, reduceCtorEq, true_or, false_or] <;> try omega
  rename_i h
  have := Chunk.two_le_of_readFrom? h
  omega

/-- A decoder of commands that does not wait for more bytes takes some.

**Proof sketch.** By the first byte: one that opens no command is skipped, and behind the others
this is `decodeTagged_consumed`. -/
theorem decode_consumed (bytes : Bytes) :
    decode bytes = .incomplete ∨ 0 < (decode bytes).consumed := by
  cases bytes with
  | nil => exact .inl rfl
  | cons first rest =>
    simp only [decode]
    split
    · right
      simp only [resync, Decoded.consumed]
      omega
    · exact decodeTagged_consumed

/-- The decoder of the direction to the device. -/
def format : Format Command where
  decode := decode
  decode_nil := rfl
  value_pos {bytes _ _} h := by
    have := decode_consumed bytes
    simpa [h, Decoded.consumed] using this
  malformed_pos {bytes _ _} h := by
    have := decode_consumed bytes
    simpa [h, Decoded.consumed] using this

end Command

end DebugWire
