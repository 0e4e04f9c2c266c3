import DebugWire.Address
import DebugWire.Hex
import DebugWire.Listing.Basic
import DebugWire.Log
import DebugWire.Machine.Snapshot
import DebugWire.Wire.Event

set_option autoImplicit false

/-!
# Events at the prompt

The text that the prompt shows for an event.

## Main definitions

* `DebugWire.Prompt.display` — the text of an event, or why it has none.
* `DebugWire.Prompt.Shown` — what is shown: a line of output or a note.
* `DebugWire.Prompt.shown` — what is shown for an event; this always succeeds.
-/

namespace DebugWire.Prompt

/-- Registers with numbered names, as `D0=1 D1=2`. -/
def numbered (letter : Char) (f : Number → String) (xs : List Number) : String :=
  " ".intercalate (xs.zipIdx.map fun (x, i) =>
    String.ofList (letter :: Digits.text 10 i) ++ "=" ++ f x)

/-- The registers on two lines. -/
def registers (s : Snapshot) : String :=
  "PC=" ++ Address.format s.pc ++ " SP=" ++ Address.format s.sp ++ " FP=" ++ Address.format s.fp
    ++ " ACC=" ++ s.acc.text ++ (if s.overflowed then " (overflow)" else "") ++ "\n"
    ++ numbered 'D' Number.text s.dataRegs ++ " " ++ numbered 'A' Address.format s.addrRegs

/-- The text of an event. -/
def display (listing : Option Listing) (e : Event) : Except Fault String :=
  match e with
  | .output text => .ok text
  | .errorOutput text => .ok ("! " ++ text)
  | .breakpointHit address =>
    let place := match listing.bind (·.describe? address) with
      | some text => " " ++ text
      | none => ""
    .ok ("breakpoint at " ++ Address.format address ++ place)
  | .dumpResult json => (Snapshot.parse json).map registers
  | .memoryResult bytes | .stackResult bytes =>
    .ok (if bytes.isEmpty then "(empty)" else Hex.dump 0 bytes)
  | .keyRequested => .ok "program is waiting for a key (key <key>)"
  | .stringRequested => .ok "program is waiting for a string (text <string>)"
  | .endOfProgram => .ok "program finished"
  | .crashed => .ok "program crashed"

/-- What is shown: a line of output or a note. -/
inductive Shown where
  | out (text : String)
  | log (entry : Log)
  deriving DecidableEq

/-- What is shown for an event; a note when it has no text. -/
def shown (listing : Option Listing) (e : Event) : Shown :=
  match display listing e with
  | .ok text => .out text
  | .error f => .log ⟨.warn, "Could not display " ++ e.name ++ ": " ++ f.message⟩

end DebugWire.Prompt
