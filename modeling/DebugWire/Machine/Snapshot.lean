import DebugWire.Fault
import DebugWire.Json.Parser

set_option autoImplicit false

/-!
# Register snapshots

The registers of a device at one moment, and the text in which they travel: a JSON object with fixed
members in a fixed order. Reading it back checks the members in their own order, the register files
first, and leaves out any others.

## Main definitions

* `DebugWire.Snapshot` — the registers.
* `DebugWire.Snapshot.set` — one register written.
* `DebugWire.Snapshot.serialize`, `DebugWire.Snapshot.parse` — the text and back.
-/

namespace DebugWire

/-- The registers of a device. -/
structure Snapshot where
  /-- The address of the next instruction. -/
  pc : Number
  /-- The accumulator. -/
  acc : Number
  /-- The stack pointer. -/
  sp : Number
  /-- The frame pointer. -/
  fp : Number
  /-- The data registers. -/
  dataRegs : List Number
  /-- The address registers. -/
  addrRegs : List Number
  /-- Whether the last operation has overflowed. -/
  overflowed : Bool
  deriving DecidableEq

namespace Snapshot

/-- The registers of a device with `size` bytes of memory at its start. -/
def initial (size : Nat) : Snapshot where
  pc := 0
  acc := 0
  sp := size
  fp := size
  dataRegs := [0, 0, 0, 0]
  addrRegs := [0, 0]
  overflowed := false

/-- The registers with one of them written; the overflow flag is set by one and cleared by all else.
-/
def set (s : Snapshot) (r : Register) (value : Number) : Snapshot :=
  match r with
  | .acc => { s with acc := value }
  | .d0 => { s with dataRegs := s.dataRegs.set 0 value }
  | .d1 => { s with dataRegs := s.dataRegs.set 1 value }
  | .d2 => { s with dataRegs := s.dataRegs.set 2 value }
  | .d3 => { s with dataRegs := s.dataRegs.set 3 value }
  | .a0 => { s with addrRegs := s.addrRegs.set 0 value }
  | .a1 => { s with addrRegs := s.addrRegs.set 1 value }
  | .pc => { s with pc := value }
  | .sp => { s with sp := value }
  | .fp => { s with fp := value }
  | .overflowed => { s with overflowed := value = 1 }

/-! ## Text -/

/-- The registers as a JSON object. -/
def toJson (s : Snapshot) : Json :=
  .object [("pc", .number s.pc), ("acc", .number s.acc), ("sp", .number s.sp), ("fp", .number s.fp),
    ("data_reg", .array (s.dataRegs.map .number)), ("addr_reg", .array (s.addrRegs.map .number)),
    ("overflowed", .bool s.overflowed)]

/-- The text of the registers. -/
def serialize (s : Snapshot) : String := s.toJson.compact

/-- The whole number in a member. -/
def number (json : Json) (field : String) : Except Fault Number :=
  match (json.get? field).bind Json.whole? with
  | some x => .ok x
  | none => .error (.dumpNumber field)

/-- The whole numbers in a member, which has exactly `length` of them. -/
def numbers (json : Json) (field : String) (length : Nat) : Except Fault (List Number) :=
  match (json.get? field).bind Json.items? with
  | some items =>
    match items.mapM Json.whole? with
    | some xs => if items.length = length then .ok xs else .error (.dumpNumbers field length)
    | none => .error (.dumpNumbers field length)
  | none => .error (.dumpNumbers field length)

/-- The truth value in a member. -/
def flag (json : Json) (field : String) : Except Fault Bool :=
  match (json.get? field).bind Json.bool? with
  | some b => .ok b
  | none => .error (.dumpFlag field)

/-- The registers that a JSON value holds. -/
def ofJson (json : Json) : Except Fault Snapshot :=
  match json with
  | .object _ => do
    let dataRegs ← numbers json "data_reg" 4
    let addrRegs ← numbers json "addr_reg" 2
    let overflowed ← flag json "overflowed"
    let pc ← number json "pc"
    let acc ← number json "acc"
    let sp ← number json "sp"
    let fp ← number json "fp"
    .ok ⟨pc, acc, sp, fp, dataRegs, addrRegs, overflowed⟩
  | _ => .error .dumpShape

/-- The registers that a text holds. -/
def parse (text : String) : Except Fault Snapshot :=
  match Json.parse? text with
  | some json => ofJson json
  | none => .error (.dumpSyntax Json.syntaxProblem)

end Snapshot

end DebugWire
