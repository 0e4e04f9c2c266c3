import DebugWire.Engine.Basic
import DebugWire.Session.Sink
import DebugWire.Wire.Reader

set_option autoImplicit false

/-!
# Sessions

A session runs an engine over a pair of byte streams: commands come in as bytes, in chunks of any
size, and each event goes out as one write. It has an outcome once the engine has come to its end or
a stream has ended or failed. From then on it reads nothing, and the outcome stays.

## Main definitions

* `DebugWire.Outcome` — how a session has ended.
* `DebugWire.Session` — a session that is running or has ended.
* `DebugWire.Session.happen` — the effect of one happening on its streams or its machine.
* `DebugWire.Session.run` — the effect of a list of happenings.
* `DebugWire.Session.rerun?` — the answer to being run again.
-/

namespace DebugWire

/-- How a session has ended. -/
inductive Outcome where
  /-- It was told to stop. -/
  | stopped
  /-- The program has come to its end. -/
  | endOfProgram
  /-- The program has failed. -/
  | crashed
  /-- A stream has ended or failed. -/
  | disconnected
  deriving DecidableEq

namespace Outcome

/-- The name of an outcome. -/
def name : Outcome → String
  | stopped => "stopped"
  | endOfProgram => "end-of-program"
  | crashed => "crashed"
  | disconnected => "disconnected"

/-- The outcome of a terminal state of the engine. -/
def ofState? : EngineState → Option Outcome
  | .stopped => some stopped
  | .finished .endOfProgram => some endOfProgram
  | .finished .crashed => some crashed
  | _ => none

end Outcome

/-- What a session lets out. -/
inductive SessionTrace where
  /-- A command was decoded. -/
  | command (c : Command)
  /-- The engine has let out an event. -/
  | event (e : Event)
  /-- Bytes were written. -/
  | write (bytes : Bytes)
  /-- A note. -/
  | log (entry : Log)
  deriving DecidableEq

namespace SessionTrace

/-- A note of a level. -/
def note (level : LogLevel) (text : String) : SessionTrace := log ⟨level, text⟩

/-- The bytes of a write. -/
def write? : SessionTrace → Option Bytes
  | write bytes => some bytes
  | _ => none

/-- The writes of a trace. -/
def writes (trace : List SessionTrace) : List Bytes := trace.filterMap write?

end SessionTrace

/-- A session. -/
structure Session where
  /-- The engine. -/
  engine : Engine
  /-- The input that waits for the rest of its frame. -/
  reader : Reader
  /-- How the session has ended, if it has. -/
  outcome : Option Outcome
  /-- Where the events go. -/
  output : Sink
  /-- Whether the session ends its output when it ends. -/
  endsOutput : Bool

namespace Session

/-- A session at its start. -/
def start (engine : Engine) (endsOutput : Bool) (failure : Option String) : Session where
  engine := engine
  reader := .empty
  outcome := none
  output := .fresh failure
  endsOutput := endsOutput

/-! ## Output -/

/-- Writes the frames of an event. -/
def writeEvent (s : Session) (e : Event) : Session × List SessionTrace :=
  match e.encode with
  | .ok bytes =>
    let (output, made) := s.output.write
    ({ s with output := output }, .event e :: if made then [.write bytes] else [])
  | .error _ => (s, [.event e])

/-- Passes on what the engine has let out. -/
def passOn (s : Session) : List Emission → Session × List SessionTrace
  | [] => (s, [])
  | .event e :: rest =>
    let (s₁, t₁) := s.writeEvent e
    let (s₂, t₂) := s₁.passOn rest
    (s₂, t₁ ++ t₂)
  | .log entry :: rest =>
    let (s', t) := s.passOn rest
    (s', .log entry :: t)

/-- Takes up what the engine has done. -/
def took (s : Session) (result : Engine × List Emission) : Session × List SessionTrace :=
  passOn { s with engine := result.1 } result.2

/-! ## End -/

/-- Ends the session, unless it has ended before. -/
def close (s : Session) (outcome : Outcome) : Session × List SessionTrace :=
  if s.outcome.isSome then (s, [])
  else
    let discarded :=
      if 0 < s.reader.size then
        [.note .debug ("Discarding " ++ Fault.decimal s.reader.size
          ++ " byte(s) received after the session ended")]
      else []
    let output := if s.endsOutput then s.output.finish.1 else s.output
    ({ s with outcome := some outcome, reader := .empty, output := output },
      discarded ++ [.note .debug ("Session ended: " ++ outcome.name)])

/-- Ends the session if the engine has come to its end. -/
def closeIfOver (s : Session) : Session × List SessionTrace :=
  match Outcome.ofState? s.engine.state with
  | some outcome => s.close outcome
  | none => (s, [])

/-! ## Input -/

/-- Takes up one item that was read. -/
def takeItem (s : Session) (item : Item Command) : Session × List SessionTrace :=
  match item with
  | .malformed cause =>
    let (s, t) := s.took (s.engine.report cause.message)
    (s, .note .warn cause.message :: t)
  | .value c =>
    let (s₁, t₁) := s.took (s.engine.handle c)
    let (s₂, t₂) := s₁.closeIfOver
    (s₂, .command c :: t₁ ++ t₂)

/-- Writing an event leaves the reader as it is. -/
theorem writeEvent_reader (s : Session) (e : Event) : (s.writeEvent e).1.reader = s.reader := by
  unfold writeEvent
  split <;> rfl

/-- Passing on what the engine has let out leaves the reader as it is. -/
theorem passOn_reader (s : Session) (trace : List Emission) :
    (s.passOn trace).1.reader = s.reader := by
  induction trace generalizing s with
  | nil => rfl
  | cons x rest ih =>
    cases x with
    | event e => simp only [passOn, ih, writeEvent_reader]
    | log entry => simp only [passOn, ih]

/-- Taking over what the engine has done leaves the reader as it is. -/
theorem took_reader (s : Session) (result : Engine × List Emission) :
    (s.took result).1.reader = s.reader := by
  rw [took, passOn_reader]

/-- Closing leaves no more bytes in the reader than there were. -/
theorem size_close_le (s : Session) (outcome : Outcome) :
    (s.close outcome).1.reader.size ≤ s.reader.size := by
  unfold close
  split
  · exact Nat.le_refl _
  · exact Nat.zero_le _

/-- Taking up an item puts no bytes into the reader.

**Proof sketch.** Taking up an item does not touch the reader, and closing the session behind it can
only empty it. -/
theorem size_takeItem_le (s : Session) (item : Item Command) :
    (s.takeItem item).1.reader.size ≤ s.reader.size := by
  cases item with
  | malformed cause => simp only [takeItem, took_reader, Nat.le_refl]
  | value c =>
    have took_size : (s.took (s.engine.handle c)).1.reader.size = s.reader.size := by
      rw [took_reader]
    simp only [takeItem, closeIfOver]
    split
    · exact Nat.le_trans (size_close_le _ _) (Nat.le_of_eq took_size)
    · exact Nat.le_of_eq took_size

/-- Takes up all items that the bytes in the reader give, up to the end of the session. -/
def pump (s : Session) : Session × List SessionTrace :=
  if s.outcome.isSome then (s, [])
  else
    match _h : s.reader.next? Command.format with
    | none => (s, [])
    | some (item, reader) =>
      let r := takeItem { s with reader := reader } item
      let rest := r.1.pump
      (rest.1, r.2 ++ rest.2)
termination_by s.reader.size
decreasing_by
  exact Nat.lt_of_le_of_lt (size_takeItem_le _ _) (Reader.size_lt_of_next? _h)

/-- A chunk of input comes in. -/
def receive (s : Session) (chunk : Bytes) : Session × List SessionTrace :=
  if s.outcome.isSome then (s, [])
  else pump { s with reader := s.reader.push chunk }

/-- The input ends. -/
def inputEnded (s : Session) : Session × List SessionTrace :=
  if s.outcome.isSome then (s, [])
  else
    let warning :=
      if 0 < s.reader.size then
        [.note .warn ("Input closed with " ++ Fault.decimal s.reader.size
          ++ " byte(s) of an incomplete frame")]
      else []
    let (s, t) := s.close .disconnected
    (s, warning ++ t)

/-- The input fails. -/
def inputFailed (s : Session) (message : String) : Session × List SessionTrace :=
  if s.outcome.isSome then (s, [])
  else
    let (s, t) := s.close .disconnected
    (s, .note .error ("Input stream error: " ++ message) :: t)

/-- A failure of the output is reported. It is noted even after the end. -/
def outputReported (s : Session) (message : String) : Session × List SessionTrace :=
  let (s, t) := s.close .disconnected
  (s, .note .error ("Output stream error: " ++ message) :: t)

/-- The output fails from outside. -/
def outputFailed (s : Session) (message : String) : Session × List SessionTrace :=
  let (output, wasOpen) := s.output.fail
  let s := { s with output := output }
  if wasOpen then s.outputReported message else (s, [])

/-- Reports a failed write after the work at hand. -/
def settle (s : Session) : Session × List SessionTrace :=
  match s.output.settle with
  | (output, some message) => outputReported { s with output := output } message
  | (_, none) => (s, [])

/-- A session that is asked to run again answers with its outcome, if it has one, and does nothing
else. -/
def rerun? (s : Session) : Option (Session × Outcome) := s.outcome.map fun outcome => (s, outcome)

/-! ## Happenings -/

/-- What can happen to a session. -/
inductive Happening where
  /-- A chunk of input comes in. -/
  | received (chunk : Bytes)
  /-- The input ends. -/
  | inputEnded
  /-- The input fails. -/
  | inputFailed (message : String)
  /-- The output fails. -/
  | outputFailed (message : String)
  /-- The machine prints a text by itself. -/
  | printed (p : Printed)

/-- The effect of a happening before a failed write is reported. -/
def respond (s : Session) : Happening → Session × List SessionTrace
  | .received chunk => s.receive chunk
  | .inputEnded => s.inputEnded
  | .inputFailed message => s.inputFailed message
  | .outputFailed message => s.outputFailed message
  | .printed p => s.took (s.engine.printed p)

/-- The effect of a happening. -/
def happen (s : Session) (h : Happening) : Session × List SessionTrace :=
  let (s₁, t₁) := s.respond h
  let (s₂, t₂) := s₁.settle
  (s₂, t₁ ++ t₂)

/-- The effect of happenings, one after the other. -/
def run (s : Session) : List Happening → Session × List SessionTrace
  | [] => (s, [])
  | h :: hs =>
    let (s₁, t₁) := s.happen h
    let (s₂, t₂) := s₁.run hs
    (s₂, t₁ ++ t₂)

/-- A run of two lists of happenings is the run of the first and then that of the second, and the
trace is that of both. -/
theorem run_append (s : Session) (xs ys : List Happening) :
    s.run (xs ++ ys) = ((s.run xs).1.run ys |>.1, (s.run xs).2 ++ ((s.run xs).1.run ys).2) := by
  induction xs generalizing s with
  | nil => rfl
  | cons x xs ih => simp [run, ih, List.append_assoc]

end Session

end DebugWire
