import DebugWire.Options.Basic
import DebugWire.StandIn.Launch
import DebugWire.Tool.Report

set_option autoImplicit false

/-!
# Attaching to a device

The command that starts the device of a project and drives it from a prompt. Only stand-ins can be
started here; what they write is shown, and they end by themselves.

## Main definitions

* `DebugWire.Tool.Attach.run` — starts the device of a project.
-/

namespace DebugWire.Tool.Attach

/-- The options of the command. -/
def options : List OptionSpec :=
  [⟨"device", .list, [], some (.array [])⟩, ⟨"debug-model", .text, ["m"], none⟩,
    ⟨"timeout", .number, [], none⟩]

/-- The lines on the output channel. -/
def outs (trace : List ConsoleTrace) : List String :=
  trace.filterMap fun
    | .out text => some text
    | _ => none

/-- The lines on the error channel. -/
def errs (trace : List ConsoleTrace) : List String :=
  trace.filterMap fun
    | .err text => some text
    | _ => none

/-- The command line of a device; a first word that does not count as true is none. -/
def device : List Json → List String
  | [] => []
  | v :: vs => (if v.isTrue then v.word else "") :: Json.words vs

/-- The device command and the listing of a project. That there is no command is said first. -/
def prepare (files : Files) (dir : String) (config : Config) (o : Options) :
    Except Problem (Target × Option Listing) := do
  let words ← (items "positional" (o.get "device")).map device
  match text? .notPath (o.get "debugModel") with
  | .ok listing => (Console.prepare files dir config words listing).mapError .console
  | .error problem =>
    .error (if (Target.resolve dir config words).isNone then .console .noCommand else problem)

/-- The start of a device. A directory of the project is there. -/
def launch (files : Files) (target : Target) : Launch where
  command := target.command
  args := target.args
  directory := if files.isDirectory (files.place target.cwd) then none else some target.cwd

/-- Starts the device of a project. -/
def run (files : Files) (dir : String) (config : Config) (o : Options) : Work :=
  match prepare files dir config o with
  | .error problem => .failed files problem
  | .ok (target, listing) =>
    let client := Client.unbound (Console.patience config (o.number? "timeout"))
    match (launch files target).converse client [] with
    | .error f => .failed files (.fault f)
    | .ok (_, trace) =>
      let isVerbose := o.flag "verbose"
      let shown := Console.note isVerbose .debug ("Started " ++ target.command ++ " (pid ?)")
        ++ trace.flatMap (Console.shown listing isVerbose)
      ⟨outs shown, errs shown, files, .ok 0⟩

end DebugWire.Tool.Attach
