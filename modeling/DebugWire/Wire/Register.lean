set_option autoImplicit false

/-!
# Registers

The registers of a device: their names, the numbers that stand for them on the wire, and their
widths.

## Main definitions

* `DebugWire.Register` — the registers.
* `DebugWire.Register.ofName?`, `DebugWire.Register.ofId?` — registers by name and by number.
* `DebugWire.Register.limit` — the greatest value that a register holds.
-/

namespace DebugWire

/-- A register of the device. -/
inductive Register where
  | acc
  | d0
  | d1
  | d2
  | d3
  | a0
  | a1
  | pc
  | sp
  | fp
  | overflowed
  deriving DecidableEq

namespace Register

/-- All registers, in the order of their numbers. -/
def all : List Register := [acc, d0, d1, d2, d3, a0, a1, pc, sp, fp, overflowed]

/-- The name of a register. -/
def name : Register → String
  | acc => "acc"
  | d0 => "d0"
  | d1 => "d1"
  | d2 => "d2"
  | d3 => "d3"
  | a0 => "a0"
  | a1 => "a1"
  | pc => "pc"
  | sp => "sp"
  | fp => "fp"
  | overflowed => "overflowed"

/-- The number of a register on the wire. -/
def id : Register → UInt8
  | acc => 1
  | d0 => 2
  | d1 => 3
  | d2 => 4
  | d3 => 5
  | a0 => 6
  | a1 => 7
  | pc => 8
  | sp => 9
  | fp => 10
  | overflowed => 11

/-- The number of bytes that a value of a register takes on the wire. -/
def width : Register → Nat
  | a0 | a1 | pc | sp | fp => 2
  | _ => 1

/-- The greatest value that fits the width of a register. -/
def widthLimit (r : Register) : Nat := if r.width = 1 then 0xff else 0xffff

/-- The greatest value that a register holds; the overflow flag holds one bit. -/
def limit (r : Register) : Nat := if r = overflowed then 1 else r.widthLimit

/-- The register of a name. -/
def ofName? (s : String) : Option Register := all.find? fun r => r.name == s

/-- The register of a number. -/
def ofId? (b : UInt8) : Option Register := all.find? fun r => r.id == b

/-- A register is found by its number, so no two of them share one. -/
@[simp]
theorem ofId?_id (r : Register) : ofId? r.id = some r := by cases r <;> decide

/-- A register is found by its name, so no two of them share one. -/
@[simp]
theorem ofName?_name (r : Register) : ofName? r.name = some r := by cases r <;> decide

/-- What is found by a number has that number. -/
theorem id_of_ofId? {b : UInt8} {r : Register} (h : ofId? b = some r) : r.id = b := by
  simpa using List.find?_some h

/-- What is found by a name has that name. -/
theorem name_of_ofName? {s : String} {r : Register} (h : ofName? s = some r) : r.name = s := by
  simpa using List.find?_some h

end Register

end DebugWire
