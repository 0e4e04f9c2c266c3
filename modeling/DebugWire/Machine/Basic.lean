import DebugWire.Machine.Snapshot
import DebugWire.Text.Units
import DebugWire.Wire.Event

set_option autoImplicit false

/-!
# Scripted machines

A device that executes a given program, one operation at an address. It prints, waits for input,
halts and fails where its program says so. What each of its calls does can be overridden, call by
call: with text to print first, and then a fault or a result in place of the call.

## Main definitions

* `DebugWire.Machine` — a machine.
* `DebugWire.Machine.Call` — what a call gives: a result or a fault, the text printed meanwhile, and
  the machine afterwards.
* `DebugWire.Machine.step`, `DebugWire.Machine.supplyKey`, `DebugWire.Machine.supplyString` — the
  calls that run the program.
* `DebugWire.Machine.read`, `DebugWire.Machine.write`, `DebugWire.Machine.setRegister`,
  `DebugWire.Machine.registers`, `DebugWire.Machine.stackBounds` — the calls that look and write.
-/

namespace DebugWire

/-! ## Programs -/

/-- The two channels that a program prints on. -/
inductive Channel where
  | output
  | errorOutput
  deriving DecidableEq

/-- One text printed on one channel. -/
abbrev Printed := Channel × String

/-- The event that relays a printed text. -/
def Channel.event (channel : Channel) (text : String) : Event :=
  match channel with
  | .output => .output text
  | .errorOutput => .errorOutput text

/-- An operation of a program. -/
inductive Op where
  /-- Do nothing. -/
  | nop
  /-- Add one to the accumulator. -/
  | inc
  /-- Put the accumulator on the stack. -/
  | push
  /-- Print a text. -/
  | print (channel : Channel) (text : String)
  /-- Wait for a key, which goes to the accumulator. -/
  | readKey
  /-- Wait for a string. -/
  | readString
  /-- End the program. -/
  | halt
  /-- Fail, with a reason or without. -/
  | crash (reason : Option String)
  /-- Raise a fault. -/
  | fail (message : String)
  deriving DecidableEq

/-- What running the program has come to. -/
inductive RunResult where
  /-- It can go on. -/
  | ok
  /-- It waits for input. -/
  | awaiting (kind : InputKind)
  /-- It has come to its end. -/
  | halted
  /-- It has failed. -/
  | crashed (reason : Option String)
  deriving DecidableEq

/-- The first byte of the stack and the end behind its last. -/
structure StackBounds where
  /-- The first byte. -/
  first : Number
  /-- The byte behind the last. -/
  limit : Number
  deriving DecidableEq

/-! ## Overrides -/

/-- What one call does in place of its normal work. -/
structure Override (α : Type) where
  /-- The text that it prints first. -/
  printed : List Printed
  /-- Its result or fault; without one the normal work follows. -/
  outcome : Option (Except Fault α)

/-- The overrides of the next calls of one method; `none` stands for a normal call. -/
abbrev Plan (α : Type) := List (Option (Override α))

/-- The overrides of the next calls of all methods. -/
structure Plans where
  registers : Plan Snapshot := []
  read : Plan Bytes := []
  write : Plan Unit := []
  setRegister : Plan Unit := []
  stackBounds : Plan StackBounds := []
  step : Plan RunResult := []
  supplyKey : Plan RunResult := []
  supplyString : Plan RunResult := []

/-! ## Machines -/

/-- A machine that executes a given program. -/
structure Machine where
  /-- The operations with their addresses; of two at one address the later counts. -/
  program : List (Number × Op)
  /-- The bytes of memory. -/
  memory : Bytes
  /-- The registers. -/
  regs : Snapshot
  /-- The number of instructions executed, overridden calls not counted. -/
  steps : Nat
  /-- The last string that was supplied. -/
  lastString : Option Utf16
  /-- The overrides of the calls to come. -/
  plans : Plans

namespace Machine

/-- A machine at its start, with zeroed memory. -/
def initial (program : List (Number × Op)) (size : Nat) (plans : Plans) : Machine where
  program := program
  memory := List.replicate size 0
  regs := .initial size
  steps := 0
  lastString := none
  plans := plans

/-- The number of bytes of memory. -/
def size (m : Machine) : Nat := m.memory.length

/-- The operation at an address. -/
def opAt? (m : Machine) (address : Number) : Option Op :=
  (m.program.reverse.find? fun entry => entry.1 = address).map (·.2)

/-- What a call gives. -/
structure Call (α : Type) where
  /-- Its result or fault. -/
  result : Except Fault α
  /-- The text printed meanwhile, in order. -/
  printed : List Printed
  /-- The machine afterwards. -/
  machine : Machine

namespace Call

/-- A call that prints nothing and gives a result. -/
def done {α : Type} (machine : Machine) (a : α) : Call α := ⟨.ok a, [], machine⟩

/-- A call that prints nothing and raises a fault. -/
def fault {α : Type} (machine : Machine) (f : Fault) : Call α := ⟨.error f, [], machine⟩

/-- The call with text printed before it. -/
def after {α : Type} (printed : List Printed) (c : Call α) : Call α :=
  { c with printed := printed ++ c.printed }

/-- The call followed by another that uses its result; a fault ends both. -/
def andThen {α β : Type} (c : Call α) (next : α → Machine → Call β) : Call β :=
  match c.result with
  | .ok a => (next a c.machine).after c.printed
  | .error f => ⟨.error f, c.printed, c.machine⟩

end Call

/-- A call of a method whose plan has been taken out of the machine: its next override, if there is
one, comes before or in place of the normal work. -/
def overridable {α : Type} (plan : Plan α) (withPlan : Plan α → Machine)
    (normal : Machine → Call α) :
    Call α :=
  match plan with
  | [] => normal (withPlan [])
  | none :: rest => normal (withPlan rest)
  | some o :: rest =>
    match o.outcome with
    | some result => ⟨result, o.printed, withPlan rest⟩
    | none => (normal (withPlan rest)).after o.printed

/-! ## Looking and writing -/

/-- The registers. -/
def registers (m : Machine) : Call Snapshot :=
  overridable m.plans.registers (fun p => { m with plans := { m.plans with registers := p } })
    fun m => .done m m.regs

/-- The place in a list of the given length that a relative position means: without its fraction,
counted from the end when negative, and never outside of the list. -/
def position (x : Number) (length : Nat) : Nat :=
  match x.truncate with
  | some n => if n < 0 then (n + length).toNat else min n.toNat length
  | none => if x.isNegative then 0 else length

/-- The bytes of a list from one relative position to another. -/
def slice (bytes : Bytes) (first limit : Number) : Bytes :=
  let a := position first bytes.length
  let b := position limit bytes.length
  (bytes.drop a).take (b - a)

/-- The `length` bytes of memory from an address on. -/
def read (m : Machine) (address length : Number) : Call Bytes :=
  overridable m.plans.read (fun p => { m with plans := { m.plans with read := p } })
    fun m => .done m (slice m.memory address (address + length))

/-- The list with bytes written over it from a place on. -/
def overwrite (memory : Bytes) (place : Nat) (bytes : Bytes) : Bytes :=
  memory.take place ++ bytes ++ memory.drop (place + bytes.length)

/-- Writes bytes into memory; bytes that do not fit are a fault. -/
def write (m : Machine) (address : Number) (bytes : Bytes) : Call Unit :=
  overridable m.plans.write (fun p => { m with plans := { m.plans with write := p } })
    fun m =>
      match address.truncate with
      | some n =>
        if 0 ≤ n ∧ n + bytes.length ≤ m.size then
          .done { m with memory := overwrite m.memory n.toNat bytes } ()
        else .fault m .bufferBounds
      | none => .fault m .bufferBounds

/-- Writes a register. -/
def setRegister (m : Machine) (r : Register) (value : Number) : Call Unit :=
  overridable m.plans.setRegister (fun p => { m with plans := { m.plans with setRegister := p } })
    fun m => .done { m with regs := m.regs.set r value } ()

/-- The stack, from the stack pointer to the end of memory. -/
def stackBounds (m : Machine) : Call StackBounds :=
  overridable m.plans.stackBounds (fun p => { m with plans := { m.plans with stackBounds := p } })
    fun m => .done m ⟨m.regs.sp, m.size⟩

/-! ## Running the program -/

/-- The machine with the next instruction one further. -/
def advance (m : Machine) : Machine := { m with regs := { m.regs with pc := m.regs.pc + 1 } }

/-- The accumulator and one more, without its higher bits. -/
def increment (acc : Number) : Number := (((acc + 1).lowByte.toNat : Nat) : Number)

/-- The machine with the accumulator put on the stack; outside of memory nothing is stored. -/
def pushAcc (m : Machine) : Machine :=
  let sp := m.regs.sp - 1
  let memory :=
    match sp with
    | .whole n =>
      if 0 ≤ n ∧ n < m.size then m.memory.set n.toNat m.regs.acc.lowByte else m.memory
    | _ => m.memory
  { m with memory := memory, regs := { m.regs with sp := sp } }

/-- Does the work of an operation. -/
def perform (m : Machine) : Op → Call RunResult
  | .nop => .done m.advance .ok
  | .inc => .done { m with regs := { m.regs with acc := increment m.regs.acc } }.advance .ok
  | .push => .done m.pushAcc.advance .ok
  | .print channel text => ⟨.ok .ok, [(channel, text)], m.advance⟩
  | .readKey => .done m (.awaiting .key)
  | .readString => .done m (.awaiting .string)
  | .halt => .done m .halted
  | .crash reason => .done m (.crashed reason)
  | .fail message => .fault m (.raised .general message)

/-- What is said when there is no operation at an address. -/
def noInstruction (address : Number) : String := "No instruction at " ++ Fault.hexNumber address

/-- Executes one instruction. -/
def execute (m : Machine) : Call RunResult :=
  let m := { m with steps := m.steps + 1 }
  match m.opAt? m.regs.pc with
  | some op => m.perform op
  | none => .done m (.crashed (some (noInstruction m.regs.pc)))

/-- Executes one instruction, unless the call is overridden. -/
def step (m : Machine) : Call RunResult :=
  overridable m.plans.step (fun p => { m with plans := { m.plans with step := p } }) execute

/-- The number of a key: its first unit; no text has none. -/
def keyCode (key : String) : Number :=
  match Units.ofText key with
  | u :: _ => u
  | [] => .nan

/-- Gives the program a key, which goes to the accumulator. -/
def supplyKey (m : Machine) (key : String) : Call RunResult :=
  overridable m.plans.supplyKey (fun p => { m with plans := { m.plans with supplyKey := p } })
    fun m => .done { m with regs := { m.regs with acc := keyCode key } }.advance .ok

/-- Gives the program a string; its size, at most 255, goes to the accumulator. -/
def supplyString (m : Machine) (text : Utf16) : Call RunResult :=
  overridable m.plans.supplyString (fun p => { m with plans := { m.plans with supplyString := p } })
    fun m =>
      let acc : Number := ((min text.size 0xff : Nat) : Number)
      .done { m with lastString := some text, regs := { m.regs with acc := acc } }.advance .ok

end Machine

end DebugWire
