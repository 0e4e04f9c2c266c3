import DebugWire.Wire.Command

set_option autoImplicit false

/-!
# Scripts

A script is a list of commands that is put together first and encoded as a whole, to be fed to a
device from a file.

## Main definitions

* `DebugWire.Script` — the commands so far.
* `DebugWire.Script.poke`, `DebugWire.Script.step?`, `DebugWire.Script.key` — calls that add
  commands.
* `DebugWire.Script.encode` — the bytes of all commands.
-/

namespace DebugWire

/-- The commands of a script, in order. -/
abbrev Script := List Command

namespace Script

/-- The number of times that a loop is run which counts up to a bound: the least natural number not
below it. A bound above the limit of exact counting makes the loop endless, since one more than that
limit is rounded back to it. -/
def rounds? (bound : Number) : Option Nat :=
  if Number.lt Number.exactLimit bound then none
  else match bound with
    | .whole n => some n.toNat
    | .fraction m k _ => some (m.fdiv (Number.twoPow (k + 1)) + 1).toNat
    | _ => some 0

/-- The commands that write bytes from an address on, at most 255 each; `offset` bytes are written
already. -/
def pokesFrom (address : Number) (offset : Nat) : List Bytes → Script
  | [] => []
  | piece :: pieces =>
    .setMemory (address + (offset : Number)) piece
      :: pokesFrom address (offset + Chunk.maxSize) pieces

/-- The commands that write bytes from an address on, at most 255 each. -/
def pokes (address : Number) (bytes : Bytes) : Script := pokesFrom address 0 (Chunk.pieces bytes)

/-- The script with bytes written from an address on. -/
def poke (s : Script) (address : Number) (bytes : Bytes) : Script := s ++ pokes address bytes

/-- The script with steps, stopping at breakpoints or not; nothing if the call never comes back. -/
def step? (s : Script) (count : Number) (ignoringBreakpoints : Bool) : Option Script :=
  (rounds? count).map fun n =>
    s ++ List.replicate n (if ignoringBreakpoints then .stepIgnoringBreakpoints else .step)

/-- The script with a key, which is given by its name or as itself. -/
def key (s : Script) (name : String) : Except Fault Script :=
  match Key.resolve? name with
  | some key => .ok (s ++ [.inputKey key])
  | none => .error (.unknownKey name)

/-- The bytes of all commands; the first that cannot be encoded is the fault. -/
def encode : Script → Except Fault Bytes
  | [] => .ok []
  | c :: cs =>
    match c.encode with
    | .error f => .error f
    | .ok bytes => (encode cs).map (bytes ++ ·)

end Script

end DebugWire
