import DebugWire.Address
import DebugWire.Hex
import DebugWire.Listing.Basic
import DebugWire.Wire.Command

set_option autoImplicit false

/-!
# Prompt lines

What is typed at the prompt. A line is a word and its arguments; the letter case of the word does
not matter. Only the argument of `text` is taken as it stands. Addresses may be given as labels of
the listing, and a label wins over a number of the same spelling.

## Main definitions

* `DebugWire.PromptAction` — what a line asks for.
* `DebugWire.PromptProblem` — why a line asks for nothing.
* `DebugWire.Prompt.parse` — the action of a line.
-/

namespace DebugWire

/-- What a line asks for. -/
inductive PromptAction where
  /-- Commands to be sent. -/
  | commands (cs : List Command)
  /-- The list of breakpoints. -/
  | breakpoints
  /-- The list of words. -/
  | help
  /-- The end. -/
  | quit
  /-- Nothing. -/
  | noop
  deriving DecidableEq

/-- Why a line asks for nothing. -/
inductive PromptProblem where
  | invalidNumber (text : String)
  | countTooSmall
  | countTooLarge
  | missingAddress
  | address (problem : Address.Problem)
  | missingKey
  | unsupportedKey (text : String)
  | missingData
  | invalidHex (text : String)
  | unknownRegister (text : String)
  | missingValue
  | unknownCommand (word : String)
  deriving DecidableEq

namespace PromptProblem

/-- The wording of a problem. -/
def message : PromptProblem → String
  | invalidNumber text => "Invalid number: " ++ text
  | countTooSmall => "Count must be at least 1"
  | countTooLarge => "Invalid array length"
  | missingAddress => "Missing address"
  | address problem => problem.message
  | missingKey => "Missing key"
  | unsupportedKey text => "Unsupported key: " ++ text
  | missingData => "Missing data"
  | invalidHex text => Hex.invalidMessage text
  | unknownRegister text => "Unknown register: " ++ text
  | missingValue => "Missing value"
  | unknownCommand word => "Unknown command: " ++ word ++ " (try \"help\")"

/-- The kind of a problem. -/
def kind : PromptProblem → FaultKind
  | countTooLarge => .range
  | _ => .general

end PromptProblem

namespace Prompt

/-- The list of words. -/
def help : String :=
  "step [n]            execute n instructions (stops at breakpoints)\n" ++
  "force [n]           execute n instructions ignoring breakpoints\n" ++
  "break <addr|label>  set a breakpoint\n" ++
  "clear <addr|label>  remove a breakpoint\n" ++
  "breakpoints         list breakpoints set in this session\n" ++
  "dump                show registers\n" ++
  "mem <from> <to>     read memory [from, to)\n" ++
  "stack               read the stack\n" ++
  "key <key>           answer a key request (a, 7, escape, return, ...)\n" ++
  "text <string>       answer a string request\n" ++
  "poke <addr> <hex>   write bytes\n" ++
  "reg <name> <value>  set a register (acc, d0-d3, a0, a1, pc, sp, fp, overflowed)\n" ++
  "quit                stop the device and exit"

/-! ## Arguments -/

/-- A number without sign, in decimal, or in base sixteen behind `x` or `0x`. -/
def number (text : String) : Except PromptProblem Number :=
  match Address.number? text.toList with
  | some n => .ok (Number.ofInt n)
  | none => .error (.invalidNumber text)

/-- The most steps that one line can ask for. -/
def maxCount : Nat := 4294967295

/-- The number of steps that is asked for; one if none is given. -/
def count (text : Option String) : Except PromptProblem Nat :=
  match text with
  | none => .ok 1
  | some text =>
    match number text with
    | .error p => .error p
    | .ok x =>
      if x.lt 1 then .error .countTooSmall
      else
        match x.within? maxCount with
        | some n => .ok n
        | none => .error .countTooLarge

/-- The address of a label or of its own text. -/
def target (listing : Option Listing) (text : Option String) : Except PromptProblem Number :=
  match text with
  | none => .error .missingAddress
  | some text =>
    match listing.bind (·.labelAddress? text) with
    | some address => .ok address
    | none =>
      match Address.parse text with
      | .ok a => .ok (a : Number)
      | .error p => .error (.address p)

/-- A key by its name or as itself. -/
def key (text : Option String) : Except PromptProblem String :=
  match text with
  | none => .error .missingKey
  | some text =>
    match Key.resolve? text with
    | some k => .ok k
    | none => .error (.unsupportedKey text)

/-- Bytes in any number of words. -/
def data (texts : List String) : Except PromptProblem Bytes :=
  match texts with
  | [] => .error .missingData
  | texts =>
    let text := String.join texts
    match Hex.parse? text with
    | some bytes => .ok bytes
    | none => .error (.invalidHex text)

/-- A register and its value. -/
def register (name value : Option String) : Except PromptProblem Command := do
  let r ← match Register.ofName? (Text.lowerCase (name.getD "")) with
    | some r => Except.ok r
    | none => .error (.unknownRegister (name.getD ""))
  match value with
  | none => .error .missingValue
  | some value => do
    let x ← number value
    .ok (.setRegister r.name x)

/-! ## Lines -/

/-- What the words behind the first ask for; `line` is the line without the blanks in front. -/
def parseWords (listing : Option Listing) (line : List Char) (word : String) (args : List String) :
    Except PromptProblem PromptAction :=
  let first := args[0]?
  let second := args[1]?
  match Text.lowerCase word with
  | "step" | "s" => do .ok (.commands (List.replicate (← count first) .step))
  | "force" | "f" => do .ok (.commands (List.replicate (← count first) .stepIgnoringBreakpoints))
  | "break" | "b" => do .ok (.commands [.setBreakpoint (← target listing first)])
  | "clear" => do .ok (.commands [.clearBreakpoint (← target listing first)])
  | "breakpoints" => .ok .breakpoints
  | "dump" | "d" => .ok (.commands [.requestDump])
  | "mem" => do
    let a ← target listing first
    let b ← target listing second
    .ok (.commands [.requestMemory a b])
  | "stack" => .ok (.commands [.requestStack])
  | "key" => do .ok (.commands [.inputKey (← key first)])
  | "text" => .ok (.commands [.inputString (String.ofList (line.drop (word.length + 1)))])
  | "poke" => do
    let a ← target listing first
    let bytes ← data args.tail
    .ok (.commands [.setMemory a bytes])
  | "reg" => do .ok (.commands [← register first second])
  | "help" | "?" => .ok .help
  | "quit" | "exit" | "q" => .ok .quit
  | _ => .error (.unknownCommand word)

/-- The action of a line. -/
def parse (listing : Option Listing) (line : String) : Except PromptProblem PromptAction :=
  let cs := Text.trimStart line.toList
  match (Text.words cs).map String.ofList with
  | [] => .ok .noop
  | word :: args => parseWords listing cs word args

end Prompt

end DebugWire
