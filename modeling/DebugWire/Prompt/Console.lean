import DebugWire.Client.Pair
import DebugWire.Project.Target
import DebugWire.Prompt.Display
import DebugWire.Prompt.Line

set_option autoImplicit false

/-!
# The console

The prompt over a client. Each line that is typed is turned into requests to the client, and each
event that comes in is shown. What a line prints itself and the next prompt stand before the events
that it causes. The console ends with the line that asks for it, with the input, or with the device.

The console keeps a set of breakpoints of its own, of what it has sent, for the list of breakpoints.

## Main definitions

* `DebugWire.Console` — a prompt over a client and the session at the other end.
* `DebugWire.ConsoleTrace` — what a console lets out.
* `DebugWire.Console.prepare` — the device command and the listing of a project.
* `DebugWire.Console.start`, `DebugWire.Console.line`, `DebugWire.Console.finish` — the start, the
  effect of a line, and the end.
-/

namespace DebugWire

/-- What a console lets out. -/
inductive ConsoleTrace where
  /-- The prompt is shown. -/
  | prompt
  /-- A text is printed. -/
  | out (text : String)
  /-- A text is printed on the error channel. -/
  | err (text : String)
  /-- The client has written bytes to the device. -/
  | sent (bytes : Bytes)
  deriving DecidableEq

/-- Why a console cannot be started. -/
inductive ConsoleProblem where
  /-- There is no device command. -/
  | noCommand
  /-- The listing cannot be had. -/
  | listing (problem : ListingProblem)
  deriving DecidableEq

/-- The wording of a problem. -/
def ConsoleProblem.message : ConsoleProblem → String
  | noCommand => Target.noCommand
  | listing problem => problem.message

/-- A prompt over a client and the session at the other end. -/
structure Console where
  /-- The client and the session. -/
  pair : Pair
  /-- The listing of the program, for labels and source lines. -/
  listing : Option Listing
  /-- Whether notes for debugging are shown. -/
  isVerbose : Bool
  /-- The breakpoints that were sent and not taken back. -/
  breakpoints : Breakpoints
  /-- Whether the console has ended. -/
  isDone : Bool

namespace Console

/-- What is shown in front of a line. -/
def promptText : String := "steplink> "

/-- The device command and the listing of a project; `words` is the command line that is given for
the device, `listing` the path that is given for the listing. -/
def prepare (files : Files) (dir : String) (config : Config) (words : List String)
    (listing : Option String) : Except ConsoleProblem (Target × Option Listing) :=
  match Target.resolve dir config words with
  | none => .error .noCommand
  | some target =>
    match Target.listing files dir config listing with
    | .error problem => .error (.listing problem)
    | .ok listing => .ok (target, listing)

/-- The time that an answer may take: the one given, or else the configured one. -/
def patience (config : Config) (given : Option Number) : Option Number :=
  given <|> config.client.bind (·.timeout)

/-! ## Showing -/

/-- The line of a note, if it is shown. -/
def note (isVerbose : Bool) (level : LogLevel) (text : String) : List ConsoleTrace :=
  ((Log.line? "attach" isVerbose ⟨level, text⟩).map .err).toList

/-- What is shown of something that the client lets out. -/
def shown (listing : Option Listing) (isVerbose : Bool) : ClientTrace → List ConsoleTrace
  | .sent bytes => [.sent bytes]
  | .event e =>
    match Prompt.shown listing e with
    | .out text => [.out text]
    | .log entry => note isVerbose entry.level entry.text
  | .malformed f => note isVerbose .warn f.message
  | .closed => note isVerbose .debug "Device closed its output"
  | .ended | .settled .. => []

/-- Whether the client has lost its link. -/
def isClosing : ClientTrace → Bool
  | .closed => true
  | _ => false

/-- Shows what the client lets out; the console ends when the link is gone. -/
def take (c : Console) (trace : List ClientTrace) : Console × List ConsoleTrace :=
  ({ c with isDone := c.isDone || trace.any isClosing },
    trace.flatMap (shown c.listing c.isVerbose))

/-! ## Start and end -/

/-- The console at its start over a client bound to a new session; `command` names the device. -/
def start (command : String) (client : Client) (engine : Engine) (listing : Option Listing)
    (isVerbose : Bool) : Console × List ConsoleTrace :=
  (⟨.start client engine, listing, isVerbose, .empty, false⟩,
    note isVerbose .debug ("Started " ++ command ++ " (pid ?)") ++ [.prompt])

/-- The console ends, unless it has ended before: the client stops the device. -/
def finish (c : Console) : Console × List ConsoleTrace :=
  if c.isDone then (c, [])
  else
    let (pair, trace, _) := c.pair.happen (.called 0 .close)
    let (c, t) := take { c with pair := pair } trace
    ({ c with isDone := true }, t)

/-! ## Lines -/

/-- The set of breakpoints after a command is sent. -/
def noted (breakpoints : Breakpoints) : Command → Except Fault Breakpoints
  | .setBreakpoint address => breakpoints.set address
  | .clearBreakpoint address => breakpoints.clear address
  | _ => .ok breakpoints

/-- What is asked of the client for a command: bytes for memory may need more than one frame. -/
def request : Command → Request
  | .setMemory address bytes => .writeMemory address bytes
  | c => .send c

/-- Sends commands one after the other, up to the first that fails. The console and the client
before anything comes back, what the client has let out, and what has failed. -/
def send (c : Console) : List Command → Console × List ClientTrace × Except Fault Unit
  | [] => (c, [], .ok ())
  | command :: commands =>
    match noted c.breakpoints command with
    | .error f => (c, [], .error f)
    | .ok breakpoints =>
      let reply := c.pair.client.call 0 (request command)
      let c := { c with breakpoints := breakpoints, pair.client := reply.client }
      match reply.result with
      | .error f => (c, reply.trace, .error f)
      | .ok () =>
        let (c, trace, result) := c.send commands
        (c, reply.trace ++ trace, result)

/-- The list of breakpoints as text. -/
def breakpointText (breakpoints : Breakpoints) : String :=
  if breakpoints.addresses.isEmpty then "(none)"
  else "\n".intercalate (breakpoints.addresses.map fun (a : Nat) => Address.format a)

/-- The effect of commands that a line asks for. -/
def command (c : Console) (commands : List Command) : Console × List ConsoleTrace :=
  let (c, sent, result) := c.send commands
  let own : List ConsoleTrace := match result with
    | .ok () => [.prompt]
    | .error f => [.err f.message, .prompt]
  let (pair, answers) := c.pair.deliver (sent.filterMap Pair.seen?)
  let (c, t) := take { c with pair := pair } (sent ++ answers)
  (c, own ++ t)

/-- The effect of a line. Once the console has ended there is none. -/
def line (c : Console) (text : String) : Console × List ConsoleTrace :=
  if c.isDone then (c, [])
  else
    match Prompt.parse c.listing text with
    | .error problem => (c, [.err problem.message, .prompt])
    | .ok .noop => (c, [.prompt])
    | .ok .help => (c, [.out Prompt.help, .prompt])
    | .ok .breakpoints => (c, [.out (breakpointText c.breakpoints), .prompt])
    | .ok .quit => c.finish
    | .ok (.commands commands) => c.command commands

/-- The effect of lines, one after the other. -/
def run (c : Console) : List String → Console × List ConsoleTrace
  | [] => (c, [])
  | text :: texts =>
    let (c₁, t₁) := c.line text
    let (c₂, t₂) := c₁.run texts
    (c₂, t₁ ++ t₂)

/-- Lines that are entered after others are entered in the state that those leave, and what is shown
is what is shown for both. -/
theorem run_append (c : Console) (xs ys : List String) :
    c.run (xs ++ ys) = ((c.run xs).1.run ys |>.1, (c.run xs).2 ++ ((c.run xs).1.run ys).2) := by
  induction xs generalizing c with
  | nil => rfl
  | cons x xs ih => simp [run, ih, List.append_assoc]

end Console

end DebugWire
