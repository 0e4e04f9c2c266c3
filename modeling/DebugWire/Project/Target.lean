import DebugWire.Listing.Reader
import DebugWire.Project.Config

set_option autoImplicit false

/-!
# Targets

What a project debugs: the command that starts its device, and the listing of its program. Both can
be given on the command line and are taken from the configuration otherwise.

## Main definitions

* `DebugWire.Target` — a device command with the directory to start it in.
* `DebugWire.Target.resolve` — the device command of a project.
* `DebugWire.Listing.load` — the listing in a file.
* `DebugWire.Target.listing` — the listing of a project.
-/

namespace DebugWire

/-! ## Listings in files -/

/-- Why a listing cannot be had from a file. -/
inductive ListingProblem where
  /-- The file cannot be read or is not JSON. -/
  | unreadable (path cause : String)
  /-- What it holds is no listing. -/
  | flawed (path : String) (problem : Listing.Problem)
  deriving DecidableEq

/-- The wording of a problem. -/
def ListingProblem.message : ListingProblem → String
  | unreadable path cause => "Failed to read " ++ path ++ ": " ++ cause
  | flawed path problem => path ++ ": " ++ problem.message

/-- The listing in a file. -/
def Listing.load (files : Files) (path : String) : Except ListingProblem Listing :=
  match files.read path with
  | .error problem => .error (.unreadable path problem.message)
  | .ok bytes =>
    match Json.parse? (Utf8.decode bytes) with
    | none => .error (.unreadable path Json.syntaxProblem)
    | some j => (Listing.ofJson j).mapError (.flawed path)

/-! ## Device commands -/

/-- A device command with the directory to start it in. -/
structure Target where
  /-- The program to start. -/
  command : String
  /-- Its arguments. -/
  args : List String
  /-- The directory to start it in. -/
  cwd : String
  deriving DecidableEq

namespace Target

/-- What is said when there is no device command. -/
def noCommand : String :=
  "No device command given. Pass one after \"--\" or set \"device.command\" in steplink.json."

/-- A text that is given and not empty. -/
def nonEmpty (s : Option String) : Option String := s.filter fun s => !s.isEmpty

/-- The directory to start the device in. -/
def directory (dir : String) (config : Config) : String :=
  match nonEmpty (config.device.bind (·.cwd)) with
  | some cwd => Path.resolve dir cwd
  | none => dir

/-- The device command of a project: the words given, or else the configured one. -/
def resolve (dir : String) (config : Config) (words : List String) : Option Target :=
  match nonEmpty words.head? with
  | some command => some ⟨command, words.tail, directory dir config⟩
  | none =>
    match nonEmpty (config.device.bind (·.command)) with
    | some command =>
      some ⟨command, (config.device.bind (·.args)).getD [], directory dir config⟩
    | none => none

/-- The listing of a project: the one given, or else the configured one; an empty path stands for
none. -/
def listing (files : Files) (dir : String) (config : Config) (given : Option String) :
    Except ListingProblem (Option Listing) :=
  match nonEmpty (given <|> config.listing) with
  | some path => (Listing.load files (Path.resolve dir path)).map some
  | none => .ok none

end Target

end DebugWire
