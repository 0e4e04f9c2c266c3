import DebugWire.Breakpoints
import DebugWire.Engine.Relay
import DebugWire.Log
import DebugWire.Machine.Checked

set_option autoImplicit false

/-!
# Engine

The engine applies commands to a machine, one at a time. It answers with events, stops at
breakpoints, waits for input that the program asks for, and comes to an end when the program does or
when it is told to stop. From then on it takes no command and relays no output.

A refused command is answered with one event on the error channel and changes nothing. A fault of
the program, or a crash that any call of the machine reports, ends the session.

## Main definitions

* `DebugWire.EngineState` — whether the engine is idle, waits, or has ended.
* `DebugWire.Engine` — the engine with its machine.
* `DebugWire.Engine.handle` — the effect of one command.
* `DebugWire.Engine.run` — the effect of a list of commands.
-/

namespace DebugWire

/-! ## State -/

/-- How a program has ended. -/
inductive EndReason where
  | endOfProgram
  | crashed
  deriving DecidableEq

/-- The name of an end. -/
def EndReason.name : EndReason → String
  | endOfProgram => "end-of-program"
  | crashed => "crashed"

/-- What the engine does. -/
inductive EngineState where
  /-- It takes any command. -/
  | idle
  /-- The program waits for input. -/
  | suspended (pending : InputKind)
  /-- The program has ended. -/
  | finished (reason : EndReason)
  /-- The session was stopped. -/
  | stopped
  deriving DecidableEq

namespace EngineState

/-- The name of a state. -/
def name : EngineState → String
  | idle => "idle"
  | suspended _ => "suspended"
  | finished _ => "finished"
  | stopped => "stopped"

/-- Whether no command has an effect any more. -/
def terminal : EngineState → Bool
  | finished _ => true
  | stopped => true
  | _ => false

end EngineState

/-- What the engine lets out: an event for the client, or a note. -/
inductive Emission where
  | event (e : Event)
  | log (entry : Log)
  deriving DecidableEq

namespace Emission

/-- The event of an emission. -/
def event? : Emission → Option Event
  | event e => some e
  | log _ => none

/-- The events of a trace. -/
def events (trace : List Emission) : List Event := trace.filterMap event?

/-- A note of a level. -/
def note (level : LogLevel) (text : String) : Emission := log ⟨level, text⟩

end Emission

/-- The engine with its machine. -/
structure Engine where
  /-- The machine that the program runs on. -/
  machine : Machine
  /-- The breakpoints. -/
  breakpoints : Breakpoints
  /-- What relays output and input. -/
  relay : Relay
  /-- What the engine does. -/
  state : EngineState
  /-- Whether every command is noted. -/
  logCommands : Bool

namespace Engine

/-- An engine at its start. -/
def start (machine : Machine) (logCommands : Bool) : Engine where
  machine := machine
  breakpoints := .empty
  relay := Relay.detached.attach
  state := .idle
  logCommands := logCommands

/-- Whether no command has an effect any more. -/
def terminated (e : Engine) : Bool := e.state.terminal

/-! ## Steps of the work -/

/-- What a part of the work comes to: the engine afterwards, what it has let out, and the fault that
has cut it short, if one has. -/
structure Work where
  /-- The engine afterwards. -/
  engine : Engine
  /-- What it has let out, in order. -/
  trace : List Emission
  /-- What has gone wrong. -/
  fault : Option Fault

/-- The events of printed texts. -/
def relayed (e : Engine) (printed : List Printed) : List Emission :=
  (e.relay.events printed).map .event

/-- Takes up a call of the machine: relays what was printed, and goes on with the result. -/
def took {α : Type} (e : Engine) (call : Machine.Call α) (next : Engine → α → Work) : Work :=
  let e' := { e with machine := call.machine }
  let printed := e.relayed call.printed
  match call.result with
  | .ok a =>
    let w := next e' a
    { w with trace := printed ++ w.trace }
  | .error f => ⟨e', printed, some f⟩

/-- Work that lets out one event and changes nothing. -/
def answer (e : Engine) (event : Event) : Work := ⟨e, [.event event], none⟩

/-- Work that does nothing more. -/
def quiet (e : Engine) : Work := ⟨e, [], none⟩

/-- Work that is refused. -/
def refuse (e : Engine) (f : Fault) : Work := ⟨e, [], some f⟩

/-- Ends the session in a terminal state. -/
def finish (e : Engine) (state : EngineState) : Engine :=
  { e with state := state, relay := e.relay.detach }

/-- The event for a reason that is given and not empty. -/
def reasonEvent (reason : Option String) : List Emission :=
  match reason with
  | some text => if text.isEmpty then [] else [.event (.errorOutput text)]
  | none => []

/-- Ends the session because the program has failed. -/
def crash (e : Engine) (reason : Option String) : Engine × List Emission :=
  (e.finish (.finished .crashed), reasonEvent reason ++ [.event .crashed])

/-- Takes up what running the program has come to. -/
def afterRun (e : Engine) (result : RunResult) : Work :=
  match result with
  | .ok => quiet { e with state := .idle }
  | .awaiting kind =>
    let (relay, event) := e.relay.request kind
    ⟨{ e with state := .suspended kind, relay := relay }, [.event event], none⟩
  | .halted =>
    ⟨e.finish (.finished .endOfProgram), [.event .endOfProgram], none⟩
  | .crashed reason =>
    let (e, trace) := e.crash reason
    ⟨e, trace, none⟩

/-- Takes up a call that runs the program. A fault raised meanwhile is one of the program, unless it
says that the command was not allowed. -/
def running (e : Engine) (call : Machine.Call RunResult) : Work :=
  let e' := { e with machine := call.machine }
  let printed := e.relayed call.printed
  match call.result with
  | .ok result =>
    let w := e'.afterRun result
    { w with trace := printed ++ w.trace }
  | .error f =>
    if f.kind = .violation then ⟨e', printed, some f⟩
    else
      let (e'', trace) := e'.crash (some f.message)
      ⟨e'', printed ++ .note .error ("Device fault: " ++ f.message) :: trace, none⟩

/-! ## Commands -/

/-- Executes one instruction, or tells of the breakpoint at it. -/
def stepOnce (e : Engine) (checkBreakpoints : Bool) : Work :=
  match e.state with
  | .suspended pending => e.refuse (.stepWhileWaiting pending)
  | _ =>
    e.took e.machine.registers fun e regs =>
      if checkBreakpoints && e.breakpoints.contains regs.pc then e.answer (.breakpointHit regs.pc)
      else e.running e.machine.step

/-- Gives the program input. -/
def input (e : Engine) (i : Input) : Work :=
  let (relay, call) := e.relay.supply e.machine i
  running { e with relay := relay } call

/-- The engine with other breakpoints, or the fault of an address that can have none. -/
def withBreakpoints (e : Engine) (result : Except Fault Breakpoints) : Work :=
  match result with
  | .ok breakpoints => quiet { e with breakpoints := breakpoints }
  | .error f => e.refuse f

/-- Applies a command. -/
def apply (e : Engine) (c : Command) : Work :=
  match c with
  | .step => e.stepOnce true
  | .stepIgnoringBreakpoints => e.stepOnce false
  | .stop => quiet (e.finish .stopped)
  | .setBreakpoint address => e.withBreakpoints (e.breakpoints.set address)
  | .clearBreakpoint address => e.withBreakpoints (e.breakpoints.clear address)
  | .requestDump => e.took e.machine.registers fun e regs => e.answer (.dumpResult regs.serialize)
  | .requestMemory first limit =>
    e.took (e.machine.readRange first limit) fun e bytes => e.answer (.memoryResult bytes)
  | .requestStack => e.took e.machine.readStack fun e bytes => e.answer (.stackResult bytes)
  | .setMemory address bytes => e.took (e.machine.writeAt address bytes) fun e _ => e.quiet
  | .setRegister register value =>
    e.took (e.machine.writeRegister register value) fun e _ => e.quiet
  | .inputKey key => e.input (.key key)
  | .inputString text => e.input (.string text)

/-- What is noted about a command. -/
def describe (c : Command) : String :=
  match c with
  | .setBreakpoint address | .clearBreakpoint address => c.name ++ " " ++ Fault.hexNumber address
  | .requestMemory first limit =>
    c.name ++ " " ++ Fault.hexNumber first ++ ".." ++ Fault.hexNumber limit
  | .setMemory address bytes =>
    c.name ++ " " ++ Fault.hexNumber address ++ " (" ++ Fault.decimal bytes.length ++ " bytes)"
  | .setRegister register value => c.name ++ " " ++ register ++ "=" ++ value.text
  | .inputKey key => c.name ++ " " ++ Json.quote key
  | .inputString text =>
    c.name ++ " (" ++ Fault.decimal (Utf8.encode text.repaired).length ++ " bytes)"
  | c => c.name

/-- Takes up a fault that has cut a command short: a crash ends the session, and all else is
reported and leaves the session as it is. -/
def recover (e : Engine) (f : Fault) : Engine × List Emission :=
  if f.kind = .crash then
    let (e, trace) := e.crash (some f.message)
    (e, .note .error ("Device fault: " ++ f.message) :: trace)
  else
    let note := if f.kind.ofLink then .note .warn f.message
      else .note .error ("Failed to apply command: " ++ f.message)
    (e, [note, .event (.errorOutput f.message)])

/-- Handles a command in a state that is not terminal. -/
def handleLive (e : Engine) (c : Command) : Engine × List Emission :=
  let w := e.apply c
  match w.fault with
  | none => (w.engine, w.trace)
  | some f =>
    let (e', trace) := w.engine.recover f
    (e', w.trace ++ trace)

/-- Handles a command. -/
def handle (e : Engine) (c : Command) : Engine × List Emission :=
  if e.terminated then
    (e, [.note .debug ("Ignoring " ++ c.name ++ ": session is " ++ e.state.name)])
  else
    let (e', trace) := e.handleLive c
    (e', (if e.logCommands then [.note .debug ("<- " ++ describe c)] else []) ++ trace)

/-! ## Other happenings -/

/-- Tells the client of an error; the session goes on. -/
def report (e : Engine) (message : String) : Engine × List Emission :=
  (e, [.event (.errorOutput message)])

/-- The machine prints a text by itself. -/
def printed (e : Engine) (p : Printed) : Engine × List Emission := (e, e.relayed [p])

/-- What can happen to an engine. -/
inductive Happening where
  | command (c : Command)
  | report (message : String)
  | printed (p : Printed)

/-- The effect of a happening. -/
def happen (e : Engine) : Happening → Engine × List Emission
  | .command c => e.handle c
  | .report message => e.report message
  | .printed p => e.printed p

/-- The effect of happenings, one after the other. -/
def run (e : Engine) : List Happening → Engine × List Emission
  | [] => (e, [])
  | h :: hs =>
    let (e₁, t₁) := e.happen h
    let (e₂, t₂) := e₁.run hs
    (e₂, t₁ ++ t₂)

/-- A run of two lists of happenings is the run of the first and then that of the second, and the
trace is that of both. -/
theorem run_append (e : Engine) (xs ys : List Happening) :
    e.run (xs ++ ys) = ((e.run xs).1.run ys |>.1, (e.run xs).2 ++ ((e.run xs).1.run ys).2) := by
  induction xs generalizing e with
  | nil => rfl
  | cons x xs ih => simp [run, ih, List.append_assoc]

end Engine

end DebugWire
