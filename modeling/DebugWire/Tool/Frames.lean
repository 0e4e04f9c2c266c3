import DebugWire.Options.Basic
import DebugWire.Tool.Report
import DebugWire.Wire.Printable

set_option autoImplicit false

/-!
# Showing frames

The command that decodes the bytes of either direction, given in base sixteen or as a file, and
prints a line for each frame and for each error.

## Main definitions

* `DebugWire.Tool.Frames.source` — the bytes that are given.
* `DebugWire.Tool.Frames.run` — prints their frames.
-/

namespace DebugWire.Tool.Frames

/-- The options of the command. -/
def options : List OptionSpec :=
  [⟨"hex", .text, [], none⟩, ⟨"file", .text, ["f"], none⟩,
    ⟨"events", .flag, ["e"], some (.bool false)⟩]

/-- The bytes that are given: those of a file, or else of a text in base sixteen. -/
def source (files : Files) (o : Options) : Except Problem Bytes := do
  match Target.nonEmpty (← text? .notFile (o.get "file")) with
  | some path => (files.read path).mapError .file
  | none =>
    match Target.nonEmpty (← text? (fun _ => .notText "input.replace") (o.get "hex")) with
    | some text =>
      match Hex.parse? text with
      | some bytes => .ok bytes
      | none => .error (.notHex text)
    | none => .error .noBytes

/-- Prints the frames of the bytes that are given. Bytes that are left over make the program end
with code one. -/
def run (files : Files) (o : Options) : Work :=
  match source files o with
  | .error problem => .failed files problem
  | .ok bytes =>
    let (lines, trailing) := if o.flag "events" then printEvents bytes else printCommands bytes
    if trailing = 0 then ⟨lines, [], files, .ok 0⟩
    else
      ⟨lines, [Fault.decimal trailing ++ " trailing byte(s) do not form a complete frame"],
        files, .ok 1⟩

end DebugWire.Tool.Frames
