import DebugWire.Json.Parser
import DebugWire.Json.Printer
import DebugWire.Project.Files
import DebugWire.Text.Blank

set_option autoImplicit false

/-!
# Project configuration

A project keeps its device command, its listing and the patience of its client in a file
`steplink.json`. All of it is optional. Members that are not known give a warning at the top and are
left out everywhere.

## Main definitions

* `DebugWire.Config` — the configuration of a project.
* `DebugWire.Config.ofJson` — the configuration that a JSON value holds, with the warnings.
* `DebugWire.Config.load` — the configuration of a directory.
* `DebugWire.Config.toJson` — the JSON value of a configuration.
* `DebugWire.Config.write` — writes the configuration of a directory.
-/

namespace DebugWire

/-- The device of a project. -/
structure DeviceConfig where
  /-- The program to start. -/
  command : Option String := none
  /-- Its arguments. -/
  args : Option (List String) := none
  /-- The directory to start it in. -/
  cwd : Option String := none
  deriving DecidableEq

/-- The client of a project. -/
structure ClientConfig where
  /-- How many milliseconds an answer may take. -/
  timeout : Option Number := none
  deriving DecidableEq

/-- The configuration of a project. -/
structure Config where
  /-- The device. -/
  device : Option DeviceConfig := none
  /-- The path of the listing. -/
  listing : Option String := none
  /-- The client. -/
  client : Option ClientConfig := none
  deriving DecidableEq

namespace Config

/-- The name of the file. -/
def filename : String := "steplink.json"

/-- The place of the file in a directory. -/
def place (dir : String) : String := Path.join dir filename

/-! ## Problems -/

/-- What is wrong with a configuration. -/
inductive Flaw where
  /-- It is no object. -/
  | notObject
  /-- A member is no object. -/
  | notSection (field : String)
  /-- The device command is no string or has only blanks. -/
  | notCommand
  /-- The arguments of the device are no list of strings. -/
  | notArguments
  /-- A member is no string. -/
  | notString (field : String)
  /-- The timeout is no positive number. -/
  | notTimeout
  deriving DecidableEq

/-- The wording of a flaw. -/
def Flaw.message : Flaw → String
  | notObject => "config must be a JSON object"
  | notSection field => "\"" ++ field ++ "\" must be an object"
  | notCommand => "\"device.command\" must be a non-empty string"
  | notArguments => "\"device.args\" must be an array of strings"
  | notString field => "\"" ++ field ++ "\" must be a string"
  | notTimeout => "\"client.timeout\" must be a positive number"

/-- Why a configuration cannot be had from a file. -/
inductive Problem where
  /-- The file cannot be read or is not JSON. -/
  | unreadable (path cause : String)
  /-- What it holds has a flaw. -/
  | flawed (path : String) (flaw : Flaw)
  deriving DecidableEq

/-- The wording of a problem. -/
def Problem.message : Problem → String
  | unreadable path cause => "Failed to parse " ++ path ++ ": " ++ cause
  | flawed path flaw => path ++ ": " ++ flaw.message

/-! ## Reading -/

/-- A member that may be missing; `null` is not missing. -/
def optional {α : Type} (j : Json) (field : String) (flaw : Flaw) (read : Json → Option α) :
    Except Flaw (Option α) :=
  match j.get? field with
  | none => .ok none
  | some v =>
    match read v with
    | some a => .ok (some a)
    | none => .error flaw

/-- A text that is not all blanks. -/
def readCommand (j : Json) : Option String :=
  j.string?.filter fun s => !(Text.trim s.toList).isEmpty

/-- A list of texts. -/
def readArguments (j : Json) : Option (List String) := j.items?.bind (·.mapM Json.string?)

/-- A positive number. -/
def readTimeout (j : Json) : Option Number := j.number?.filter fun x => !x.le 0

/-- The device. -/
def readDevice (j : Json) : Except Flaw DeviceConfig := do
  let command ← optional j "command" .notCommand readCommand
  let args ← optional j "args" .notArguments readArguments
  let cwd ← optional j "cwd" (.notString "device.cwd") Json.string?
  .ok ⟨command, args, cwd⟩

/-- The client. -/
def readClient (j : Json) : Except Flaw ClientConfig := do
  let timeout ← optional j "timeout" .notTimeout readTimeout
  .ok ⟨timeout⟩

/-- A member that may be missing and is an object otherwise. -/
def readSection {α : Type} (j : Json) (field : String) (read : Json → Except Flaw α) :
    Except Flaw (Option α) :=
  match j.get? field with
  | none => .ok none
  | some (.object members) => (read (.object members)).map some
  | some _ => .error (.notSection field)

/-- The configuration that the members of an object hold. -/
def readMembers (j : Json) : Except Flaw Config := do
  let device ← readSection j "device" readDevice
  let listing ← optional j "debugModel" (.notString "debugModel") Json.string?
  let client ← readSection j "client" readClient
  .ok ⟨device, listing, client⟩

/-- The members that a configuration may have. -/
def knownMembers : List String := ["device", "debugModel", "client"]

/-- The warning for a member that is not known. -/
def unknownWarning (path member : String) : String :=
  "Warning: unknown key \"" ++ member ++ "\" in " ++ path

/-- The warnings for the members that are not known, in their order. -/
def warnings (path : String) (j : Json) : List String :=
  ((j.members?.getD []).filter fun m => !knownMembers.contains m.1).map fun m =>
    unknownWarning path m.1

/-- The configuration that a JSON value holds, and the warnings that are given before it is looked
into. The path is only named in messages. -/
def ofJson (path : String) (j : Json) : Except Problem Config × List String :=
  match j with
  | .object members =>
    ((readMembers (.object members)).mapError (.flawed path), warnings path (.object members))
  | _ => (.error (.flawed path .notObject), [])

/-- The configuration that the bytes of a file hold, and the warnings. -/
def ofBytes (path : String) (bytes : Bytes) : Except Problem Config × List String :=
  match Json.parse? (Utf8.decode bytes) with
  | some j => ofJson path j
  | none => (.error (.unreadable path Json.syntaxProblem), [])

/-- The configuration of a directory, and the warnings. Without a file it is empty. -/
def load (files : Files) (dir : String) : Except Problem Config × List String :=
  let path := place dir
  if files.isPresent path then
    match files.read path with
    | .ok bytes => ofBytes path bytes
    | .error problem => (.error (.unreadable path problem.message), [])
  else (.ok {}, [])

/-! ## Writing -/

/-- A member if it has a value. -/
def member {α : Type} (name : String) (f : α → Json) (value : Option α) : List (String × Json) :=
  match value with
  | some a => [(name, f a)]
  | none => []

/-- A device as a JSON object. -/
def deviceJson (d : DeviceConfig) : Json :=
  .object (member "command" .string d.command ++
    member "args" (fun l => .array (l.map .string)) d.args
    ++ member "cwd" .string d.cwd)

/-- A client as a JSON object. -/
def clientJson (c : ClientConfig) : Json := .object (member "timeout" .number c.timeout)

/-- A configuration as a JSON object. -/
def toJson (c : Config) : Json :=
  .object (member "device" deviceJson c.device ++ member "client" clientJson c.client
    ++ member "debugModel" .string c.listing)

/-- The text of the file for a JSON value. -/
def fileText (j : Json) : String := j.pretty ++ "\n"

/-- The bytes of the file for a JSON value. -/
def fileBytes (j : Json) : Bytes := Utf8.encode (fileText j)

/-- The files after a JSON value is written as the configuration of a directory. -/
def write (files : Files) (dir : String) (j : Json) : Except Files.Problem Files :=
  files.write (place dir) (fileBytes j)

end Config

end DebugWire
