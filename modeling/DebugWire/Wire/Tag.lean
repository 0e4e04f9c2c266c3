set_option autoImplicit false

/-!
# Frame tags

Every frame opens with one byte that says what it is. Commands go to the device and events come from
it, and each direction has its own table, so one byte may open a command and, the other way, an
event.

## Main definitions

* `DebugWire.CommandTag`, `DebugWire.EventTag` — the kinds of frames.
* `byte`, `name` — the first byte of a frame and the name that messages use for its kind.
* `ofByte?`, `ofName?` — their inverses.
-/

namespace DebugWire

/-! ## Commands -/

/-- The kinds of commands. -/
inductive CommandTag where
  | step
  | stepIgnoringBreakpoints
  | stop
  | setBreakpoint
  | clearBreakpoint
  | requestDump
  | inputKey
  | inputString
  | requestMemory
  | requestStack
  | setMemory
  | setRegister
  deriving DecidableEq

namespace CommandTag

/-- All kinds of commands. -/
def all : List CommandTag :=
  [step, stepIgnoringBreakpoints, stop, setBreakpoint, clearBreakpoint, requestDump, inputKey,
    inputString, requestMemory, requestStack, setMemory, setRegister]

/-- The first byte of a command, a letter. -/
def byte : CommandTag → UInt8
  | step => 0x65
  | stepIgnoringBreakpoints => 0x66
  | stop => 0x71
  | setBreakpoint => 0x62
  | clearBreakpoint => 0x63
  | requestDump => 0x64
  | inputKey => 0x69
  | inputString => 0x74
  | requestMemory => 0x6d
  | requestStack => 0x73
  | setMemory => 0x6e
  | setRegister => 0x72

/-- The name of a kind of command. -/
def name : CommandTag → String
  | step => "step"
  | stepIgnoringBreakpoints => "step-ignoring-breakpoints"
  | stop => "stop"
  | setBreakpoint => "set-breakpoint"
  | clearBreakpoint => "clear-breakpoint"
  | requestDump => "request-dump"
  | inputKey => "input-key"
  | inputString => "input-string"
  | requestMemory => "request-memory"
  | requestStack => "request-stack"
  | setMemory => "set-memory"
  | setRegister => "set-register"

/-- The kind of command that a byte opens. -/
def ofByte? (b : UInt8) : Option CommandTag := all.find? fun t => t.byte == b

/-- The kind of command of a name. -/
def ofName? (s : String) : Option CommandTag := all.find? fun t => t.name == s

/-- The kind of a command is found by its byte. -/
@[simp]
theorem ofByte?_byte (t : CommandTag) : ofByte? t.byte = some t := by cases t <;> decide

/-- The kind of commands that is found by a byte has that byte. -/
theorem byte_of_ofByte? {b : UInt8} {t : CommandTag} (h : ofByte? b = some t) : t.byte = b := by
  simpa using List.find?_some h

end CommandTag

/-! ## Events -/

/-- The kinds of events. -/
inductive EventTag where
  | output
  | errorOutput
  | breakpointHit
  | dumpResult
  | memoryResult
  | stackResult
  | keyRequested
  | stringRequested
  | endOfProgram
  | crashed
  deriving DecidableEq

namespace EventTag

/-- All kinds of events. -/
def all : List EventTag :=
  [output, errorOutput, breakpointHit, dumpResult, memoryResult, stackResult, keyRequested,
    stringRequested, endOfProgram, crashed]

/-- The first byte of an event, a letter. -/
def byte : EventTag → UInt8
  | output => 0x6f
  | errorOutput => 0x65
  | breakpointHit => 0x68
  | dumpResult => 0x64
  | memoryResult => 0x6d
  | stackResult => 0x73
  | keyRequested => 0x6b
  | stringRequested => 0x74
  | endOfProgram => 0x66
  | crashed => 0x63

/-- The name of a kind of event. -/
def name : EventTag → String
  | output => "output"
  | errorOutput => "error-output"
  | breakpointHit => "breakpoint-hit"
  | dumpResult => "dump-result"
  | memoryResult => "memory-result"
  | stackResult => "stack-result"
  | keyRequested => "key-requested"
  | stringRequested => "string-requested"
  | endOfProgram => "end-of-program"
  | crashed => "crashed"

/-- The kind of event that a byte opens. -/
def ofByte? (b : UInt8) : Option EventTag := all.find? fun t => t.byte == b

/-- The kind of event of a name. -/
def ofName? (s : String) : Option EventTag := all.find? fun t => t.name == s

/-- The kind of an event is found by its byte. -/
@[simp]
theorem ofByte?_byte (t : EventTag) : ofByte? t.byte = some t := by cases t <;> decide

/-- The kind of events that is found by a byte has that byte. -/
theorem byte_of_ofByte? {b : UInt8} {t : EventTag} (h : ofByte? b = some t) : t.byte = b := by
  simpa using List.find?_some h

end EventTag

end DebugWire
