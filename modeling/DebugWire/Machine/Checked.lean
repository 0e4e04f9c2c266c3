import DebugWire.Machine.Basic

set_option autoImplicit false

/-!
# Checked access

Reading and writing the state of a machine for a client: every range has to lie inside of memory and
every register value has to fit, or the machine is not asked at all.

## Main definitions

* `DebugWire.Machine.checkRange` — the check of a memory range.
* `DebugWire.Machine.readRange`, `DebugWire.Machine.readStack` — bytes of memory and of the stack.
* `DebugWire.Machine.writeAt`, `DebugWire.Machine.writeRegister` — checked writes.
-/

namespace DebugWire.Machine

/-- A fault for `length` bytes at an address that are not all inside of memory. -/
def checkRange (m : Machine) (address length : Number) : Except Fault Unit :=
  let limit : Number := m.size
  if address.isNegative ||
    limit.lt (address + length) then .error (.outOfRange address length limit)
  else .ok ()

/-- Makes a call if a check passes. -/
def checked {α : Type} (m : Machine) (check : Except Fault Unit) (call : Call α) : Call α :=
  match check with
  | .ok () => call
  | .error f => .fault m f

/-- The bytes from `first` up to but without `limit`. -/
def readRange (m : Machine) (first limit : Number) : Call Bytes :=
  if limit.lt first then .fault m (.invertedRange first limit)
  else m.checked (m.checkRange first (limit - first)) (m.read first (limit - first))

/-- The bytes of the stack; none when it is empty. -/
def readStack (m : Machine) : Call Bytes :=
  m.stackBounds.andThen fun bounds m =>
    if bounds.limit.le bounds.first then .done m []
    else
      m.checked (m.checkRange bounds.first (bounds.limit - bounds.first))
        (m.read bounds.first (bounds.limit - bounds.first))

/-- Writes bytes into memory. -/
def writeAt (m : Machine) (address : Number) (bytes : Bytes) : Call Unit :=
  m.checked (m.checkRange address (bytes.length : Number)) (m.write address bytes)

/-- Writes the register of a name. -/
def writeRegister (m : Machine) (register : String) (value : Number) : Call Unit :=
  match Register.ofName? register with
  | none => .fault m (.unknownRegister register)
  | some r =>
    if value.isWithin r.limit then m.setRegister r value
    else .fault m (.registerValue value r)

end DebugWire.Machine
