import DebugWire.Tool.Attach
import DebugWire.Tool.Frames
import DebugWire.Tool.Init
import DebugWire.Tool.Scripts

set_option autoImplicit false

/-!
# The command line

The program takes the name of a command and options. The first word that belongs to no general
option names the command; then all options are read again with those of the command. Arguments that
are not known are refused before the configuration of the project is loaded, and a bad configuration
before the command is run.

## Main definitions

* `DebugWire.Tool.Command` — the commands.
* `DebugWire.Tool.run` — what the program leaves behind.
-/

namespace DebugWire.Tool

/-- The commands. -/
inductive Command where
  | init
  | attach
  | script
  | frames
  deriving DecidableEq

namespace Command

/-- All commands. -/
def all : List Command := [init, attach, script, frames]

/-- The name of a command. -/
def name : Command → String
  | init => "init"
  | attach => "attach"
  | script => "script"
  | frames => "frames"

/-- The command of a name. -/
def ofName? (s : String) : Option Command := all.find? fun c => c.name == s

/-- The options of a command. -/
def options : Command → List OptionSpec
  | init => Init.options
  | attach => Attach.options
  | script => Scripts.options
  | frames => Frames.options

/-- What a command does. -/
def summary : Command → String
  | init => "Create a steplink.json project config"
  | attach => "Start a device in piped mode and drive it from a prompt"
  | script => "Generate an encoded command stream to feed a piped device"
  | frames => "Decode a captured command or event byte stream"

end Command

/-- The options of all commands. -/
def general (current : String) : List OptionSpec :=
  [⟨"help", .flag, [], none⟩, ⟨"version", .flag, [], none⟩,
    ⟨"project", .text, ["p"], some (.string current)⟩,
      ⟨"verbose", .flag, ["v"], some (.bool false)⟩]

/-- The version of the program. -/
def version : String := "0.1.0"

/-- The text that is shown on request. -/
def usage : String :=
  "\n".intercalate (["steplink <command> [options]", "", "Commands:"]
    ++ Command.all.map fun c => "  steplink " ++ c.name ++ "  " ++ c.summary)

/-- What is said when there is no command. -/
def noCommand : String := "You need at least one command"

/-! ## Words of a command -/

/-- The words of a list argument. A word that looks like an option is left out. -/
def wordList (words : List String) : List String := words.filter fun w => !OptionWord.isDashed w

/-- The word of an argument. A word that looks like an option stands for none. -/
def wordText (word : String) : String := if OptionWord.isDashed word then "" else word

/-- The text of the bytes to be decoded after a word was given for it, which is added if there is a
list of them. -/
def wordAfter (word : String) : Json → Json
  | .array items => .array (items ++ [.string (wordText word)])
  | _ => .string (wordText word)

/-- The options with the words behind the name of the command in their places, and the words that
are left over. Words for a device stand for all that its option says. -/
def place (c : Command) (o : Options) (words : List String) : Options × List String :=
  match c, words with
  | .init, words | .attach, words =>
    if words.isEmpty then (o, [])
    else
      ({ o with values := Json.put "device" (.array ((wordList words).map .string)) o.values }, [])
  | .frames, word :: words =>
    ({ o with values := Json.put "hex" (wordAfter word (o.get "hex")) o.values }, words)
  | _, words => (o, words)

/-! ## Running -/

/-- What a command does in a project. -/
def Command.run (c : Command) (files : Files) (dir : String) (config : Config)
    (o : Options) : Work :=
  match c with
  | init => Init.run files dir o
  | attach => Attach.run files dir config o
  | script => Scripts.run files o
  | frames => Frames.run files o

/-- Whether the text or the version is asked for, and which of the two. -/
def shown? (o : Options) : Option String :=
  if o.flag "help" || o.words.getLast? = some "help" then some usage
  else if o.flag "version" then some version
  else none

/-- The directory of the project that the options name. -/
def directory (files : Files) (o : Options) : Except Problem String :=
  match o.get "project" with
  | .null => .ok files.current
  | .string dir => .ok dir
  | v => .error (.notPath v)

/-- Loads the configuration of the project that the options name and does work in it. A bad
configuration is refused. -/
def inProject (files : Files) (o : Options) (work : String → Config → Work) : Report :=
  match directory files o with
  | .error problem => .refused files problem.message
  | .ok dir =>
    match Config.load files dir with
    | (.error problem, warnings) => ⟨[], warnings ++ [problem.message], files, some 1, true⟩
    | (.ok config, warnings) => (work dir config).report warnings

/-- Runs a command. -/
def runCommand (files : Files) (c : Command) (args : List String) : Report :=
  let given := Options.read (general files.current ++ c.options) args
  match shown? given with
  | some text => ⟨[text], [], files, some 0, false⟩
  | none =>
    let (o, left) := place c given (given.words.drop 1)
    match Options.strangers (o.unknown ++ left) with
    | some reason => .refused files reason
    | none => inProject files o fun dir config => c.run files dir config o

/-- Runs the program without a command. Words behind `--` count as words but name no command; with
them alone there is nothing to do but to load the configuration. -/
def runNothing (files : Files) (o : Options) : Report :=
  match shown? o with
  | some text => ⟨[text], [], files, some 0, false⟩
  | none =>
    if o.words.isEmpty && o.rest.isEmpty then .refused files noCommand
    else
      match Options.strangers (o.unknown ++ o.words.filter fun w => (Command.ofName? w).isNone) with
      | some reason => .refused files reason
      | none => inProject files o fun _ _ => ⟨[], [], files, .ok 0⟩

/-- The command that the words name, by the general options alone. -/
def named? (o : Options) : Option Command := o.words.head?.bind Command.ofName?

/-- What the program leaves behind when it is given words. -/
def run (files : Files) (args : List String) : Report :=
  let o := Options.read (general files.current) args
  match named? o with
  | some c =>
    match shown? o with
    | some text => ⟨[text], [], files, some 0, false⟩
    | none => runCommand files c args
  | none => runNothing files o

end DebugWire.Tool
