import DebugWire.Options.Basic
import DebugWire.Tool.Report

set_option autoImplicit false

/-!
# Setting up a project

The command that writes the configuration of a project: its device command line, the patience of its
client, and the listing if the directory holds just one. A configuration that is there is kept
unless the command is forced.

## Main definitions

* `DebugWire.Tool.Init.configOf` — the configuration that is asked for.
* `DebugWire.Tool.Init.run` — writes it.
-/

namespace DebugWire.Tool.Init

/-- The options of the command. -/
def options : List OptionSpec :=
  [⟨"device", .list, [], some (.array [])⟩, ⟨"force", .flag, ["f"], some (.bool false)⟩,
    ⟨"timeout", .number, [], none⟩]

/-- Whether a name is that of a listing; the letter case does not matter. -/
def isListingName (name : String) : Bool :=
  ".debug.json".toList.reverse.isPrefixOf (Text.lowerCase name).toList.reverse

/-- The only name of a listing among names. -/
def onlyListing? (names : List String) : Option String :=
  match names.filter isListingName with
  | [name] => some name
  | _ => none

/-- The device that is asked for: a command that counts as true, and its arguments. -/
def device? : List Json → Option (Json × List Json)
  | [] => none
  | command :: args => if command.isTrue then some (command, args) else none

/-- The configuration that is asked for: a device, the patience of the client, and a listing. The
values are written as they are given, right or wrong. -/
def configOf (device : Option (Json × List Json)) (timeout : Json) (listing : Option String) :
    Json :=
  let patience := match timeout with
    | .null => none
    | v => some v
  .object (Config.member "device" (fun d => .object [("command", d.1), ("args", .array d.2)]) device
    ++ Config.member "client" (fun v => .object [("timeout", v)]) patience
    ++ Config.member "debugModel" .string listing)

/-- The lines that tell of a configuration. -/
def summary (place : String) (device : Option (Json × List Json)) (listing : Option String) :
    List String :=
  let command := device.map fun d => "  device: " ++ " ".intercalate (Json.words (d.1 :: d.2))
  let model := (Target.nonEmpty listing).map fun name => "  debugModel: " ++ name
  ("Created " ++ place) :: command.toList ++ model.toList

/-- Writes the configuration of a project in a directory. -/
def run (files : Files) (dir : String) (o : Options) : Work :=
  let place := Config.place dir
  if files.isPresent place && !o.flag "force" then
    ⟨[], [Config.filename ++ " already exists. Use --force to overwrite."], files, .ok 1⟩
  else
    match itemsOf o "device" with
    | .error problem => .failed files problem
    | .ok items =>
      let (listing, err) := match files.list dir with
        | .ok names => (onlyListing? names, [])
        | .error problem => (none, ["Could not scan " ++ dir ++ ": " ++ problem.message])
      let config := configOf (device? items) (o.get "timeout") listing
      match Config.write files dir config with
      | .error problem => ⟨[], err, files, .error (.file problem)⟩
      | .ok files => ⟨summary place (device? items) listing, err, files, .ok 0⟩

end DebugWire.Tool.Init
