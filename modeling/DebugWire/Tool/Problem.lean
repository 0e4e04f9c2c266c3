import DebugWire.Address
import DebugWire.Options.Basic
import DebugWire.Prompt.Console

set_option autoImplicit false

/-!
# Problems of commands

Why a command of the command line fails. Options may have values of other kinds than a command asks
for, since an option can be given more than once or switched off; each such value is a problem of
its own.

## Main definitions

* `DebugWire.Tool.Problem` — why a command fails.
* `DebugWire.Tool.text?` — a value where a text is asked for.
* `DebugWire.Tool.items` — a value where a list is asked for.
-/

namespace DebugWire.Tool

/-- Why a command fails. -/
inductive Problem where
  /-- There are no bytes to decode. -/
  | noBytes
  /-- A text is not in base sixteen. -/
  | notHex (text : String)
  /-- A memory write is not an address and bytes. -/
  | pokeShape (text : String)
  /-- A name is no register. -/
  | unknownRegister (name : String)
  /-- A text is no address. -/
  | address (problem : Address.Problem)
  /-- A command cannot be encoded, or a device cannot be started. -/
  | fault (f : Fault)
  /-- There is nothing to be debugged. -/
  | console (problem : ConsoleProblem)
  /-- A file cannot be used. -/
  | file (problem : Files.Problem)
  /-- A value is no path. -/
  | notPath (value : Json)
  /-- A value names no file. -/
  | notFile (value : Json)
  /-- A value is no text; the text would have been read by the call. -/
  | notText (call : String)
  /-- A value that stands at a place is no list. -/
  | notList (place : String)

namespace Problem

/-- The name of the kind of a problem. -/
def kindName : Problem → String
  | fault f => f.kind.name
  | notPath _ | notFile _ | notText _ | notList _ => "TypeError"
  | _ => FaultKind.general.name

/-- What is said of a value of the wrong kind. -/
def received : Json → String
  | .null => "undefined"
  | .array _ => "an instance of Array"
  | .object _ => "an instance of Object"
  | .bool b => "type boolean (" ++ (Json.bool b).word ++ ")"
  | .number x => "type number (" ++ x.text ++ ")"
  | .string s => "type string ('" ++ s ++ "')"

/-- The wording of a problem. -/
def message : Problem → String
  | noBytes => "Pass hex bytes or --file"
  | notHex text => Hex.invalidMessage text
  | pokeShape text => "Expected addr,hex: " ++ text
  | unknownRegister name => "Unknown register: " ++ name
  | address problem => problem.message
  | fault f => f.message
  | console problem => problem.message
  | file problem => problem.message
  | notPath value => "The \"path\" argument must be of type string. Received " ++ received value
  | notFile value =>
    "The \"path\" argument must be of type string or an instance of Buffer or URL. Received "
      ++ received value
  | notText call => call ++ " is not a function"
  | notList place => place ++ " is not iterable"

/-- The line that says why a command has failed. -/
def line (p : Problem) : String := p.kindName ++ ": " ++ p.message

end Problem

/-! ## Values of options -/

/-- A value where a text is asked for. Nothing is given by `null`, and an empty text by what does
not count as true; what is no text otherwise is the problem. -/
def text? (problem : Json → Problem) (value : Json) : Except Problem (Option String) :=
  match value with
  | .null => .ok none
  | .string s => .ok (some s)
  | v => if v.isTrue then .error (problem v) else .ok (some "")

/-- The items of a value where a list is asked for; `null` has none. -/
def items (place : String) (value : Json) : Except Problem (List Json) :=
  match value with
  | .null => .ok []
  | .array vs => .ok vs
  | _ => .error (.notList place)

/-- The items of an option that takes a list. -/
def itemsOf (o : Options) (name : String) : Except Problem (List Json) :=
  items ("(argv." ++ name ++ " ?? [])") (o.get name)

end DebugWire.Tool
