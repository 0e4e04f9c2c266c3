import DebugWire.Options.Basic
import DebugWire.Script.Basic
import DebugWire.Tool.Report

set_option autoImplicit false

/-!
# Making scripts

The command that makes a script out of options: breakpoints, memory writes, register writes, steps,
a register dump, memory reads, the stack and the stop, in this order. The bytes go to a file or are
printed in base sixteen.

## Main definitions

* `DebugWire.Tool.Scripts.script` — the script that is asked for.
* `DebugWire.Tool.Scripts.run` — writes or prints it.
-/

namespace DebugWire.Tool.Scripts

/-- The options of the command. -/
def options : List OptionSpec :=
  [⟨"bp", .list, [], none⟩, ⟨"poke", .list, [], none⟩, ⟨"reg", .list, [], none⟩,
    ⟨"step", .number, ["s"], some (.number 0)⟩, ⟨"force", .flag, [], some (.bool false)⟩,
    ⟨"dump", .flag, ["d"], some (.bool false)⟩, ⟨"memory", .list, [], none⟩,
    ⟨"stack", .flag, [], some (.bool false)⟩, ⟨"stop", .flag, [], some (.bool true)⟩,
    ⟨"output", .text, ["o"], none⟩]

/-- The parts of a text between separators. -/
def parts (separator : Char) (text : String) : List String :=
  (Text.splitAt separator text.toList).map String.ofList

/-- The part of a list of parts at a place; empty if there is none. -/
def part (parts : List String) (i : Nat) : String := (parts[i]?).getD ""

/-- The address that a text stands for. -/
def address (text : String) : Except Problem Number :=
  match Address.parse text with
  | .ok a => .ok (a : Number)
  | .error problem => .error (.address problem)

/-- The command for a breakpoint. -/
def breakpoint (text : String) : Except Problem Script := do
  .ok [.setBreakpoint (← address text)]

/-- The commands for a memory write, an address and bytes with a comma between them. -/
def poke (text : String) : Except Problem Script :=
  let ps := parts ',' text
  if (part ps 0).isEmpty ∨ (part ps 1).isEmpty then .error (.pokeShape text)
  else do
    let a ← address (part ps 0)
    match Hex.parse? (part ps 1) with
    | some bytes => .ok (Script.pokes a bytes)
    | none => .error (.notHex (part ps 1))

/-- The command for a register write, a name and a value with an equals sign between them. -/
def register (text : String) : Except Problem Script :=
  let ps := parts '=' text
  match Register.ofName? (part ps 0) with
  | none => .error (.unknownRegister (part ps 0))
  | some r => do .ok [.setRegister r.name (← address (part ps 1))]

/-- The command for a memory read, two addresses with a comma between them. -/
def memory (text : String) : Except Problem Script := do
  let ps := parts ',' text
  let first ← address (part ps 0)
  let last ← address (part ps 1)
  .ok [.requestMemory first last]

/-- The commands for each text of an option, in order; the first that fails is the problem. What is
no text fails at the call that would have read it. -/
def each (call : String) (f : String → Except Problem Script) : List Json → Except Problem Script
  | [] => .ok []
  | .string text :: vs => do
    let first ← f text
    let rest ← each call f vs
    .ok (first ++ rest)
  | _ => .error (.notText call)

/-- A command if a flag is set. -/
def whenSet (o : Options) (name : String) (c : Command) : Script := if o.flag name then [c] else []

/-- The script that is asked for; nothing if its steps are never all there. -/
def script (o : Options) : Except Problem (Option Script) := do
  let breakpoints ← each "input.trim" breakpoint (← itemsOf o "bp")
  let pokes ← each "input.split" poke (← itemsOf o "poke")
  let registers ← each "reg.split" register (← itemsOf o "reg")
  match Script.step? [] ((o.number? "step").getD 0) (o.flag "force") with
  | none => .ok none
  | some steps =>
    let reads ← each "range.split" memory (← itemsOf o "memory")
    .ok (some (breakpoints ++ pokes ++ registers ++ steps ++ whenSet o "dump" .requestDump ++ reads
      ++ whenSet o "stack" .requestStack ++ whenSet o "stop" .stop))

/-- Writes the bytes of a script to a file; the directory is made first. -/
def write (files : Files) (path : String) (s : Script) : Except Problem Files := do
  let files ← (files.makeDirectory (Path.directory path)).mapError .file
  let bytes ← s.encode.mapError .fault
  (files.write path bytes).mapError .file

/-- Writes a script to the file that is asked for, or gives its bytes in base sixteen: the line to
be printed, and the files. -/
def deliver (files : Files) (o : Options) (s : Script) : Except Problem (String × Files) := do
  match Target.nonEmpty (← text? .notPath (o.get "output")) with
  | some path =>
    .ok ("Wrote " ++ Fault.decimal s.length ++ " commands to " ++ path, ← write files path s)
  | none => .ok (Hex.ofBytes (← s.encode.mapError .fault), files)

/-- Writes the script that is asked for to a file, or prints its bytes. -/
def run (files : Files) (o : Options) : Work :=
  match script o with
  | .error problem => .failed files problem
  | .ok none => ⟨[], [], files, .endless⟩
  | .ok (some s) =>
    match deliver files o s with
    | .error problem => .failed files problem
    | .ok (line, files) => ⟨[line], [], files, .ok 0⟩

end DebugWire.Tool.Scripts
