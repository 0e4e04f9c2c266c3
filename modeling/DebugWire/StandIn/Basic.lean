import DebugWire.Number.Digits
import DebugWire.Text.Utf8

set_option autoImplicit false

/-!
# Stand-ins for devices

Small programs that can be started in place of a device when a client is tried out. A stand-in
writes bytes that its command line fixes, or gives back the first bytes that it reads, and ends.

## Main definitions

* `DebugWire.StandIn` — what a program does with what it reads.
* `DebugWire.StandIn.format` — the bytes of a format.
* `DebugWire.StandIn.ofProgram?` — the stand-in of a program with arguments.
-/

namespace DebugWire

/-- What is there when a program has ended. -/
structure StandIn.Ended where
  /-- What it has not read. -/
  rest : Bytes
  /-- What it has written. -/
  out : Bytes
  /-- Whether it has failed. -/
  hasFailed : Bool
  deriving DecidableEq

/-- What a program does with what it reads. -/
abbrev StandIn := Bytes → StandIn.Ended

/-- The variables that are given to a program. -/
abbrev Environment := List (String × String)

namespace StandIn

/-- A program that reads nothing and writes bytes. -/
def writes (bytes : Bytes) : StandIn := fun input => ⟨input, bytes, false⟩

/-- A program that does nothing but to fail. -/
def fails : StandIn := fun input => ⟨input, [], true⟩

/-- A program that gives back the first bytes that it reads. -/
def repeats (count : Nat) : StandIn := fun input => ⟨input.drop count, input.take count, false⟩

/-! ## Formats -/

/-- The value of up to three digits in base eight, and the characters behind them. -/
def octal (value : Nat) : Nat → List Char → Nat × List Char
  | 0, cs => (value, cs)
  | _ + 1, [] => (value, [])
  | n + 1, c :: cs =>
    if '0' ≤ c ∧ c ≤ '7' then octal (value * 8 + (c.toNat - '0'.toNat)) n cs else (value, c :: cs)

/-- The character that a letter behind a backslash stands for. -/
def escaped? : Char → Option Char
  | 'a' => some '\x07'
  | 'b' => some '\x08'
  | 'f' => some '\x0c'
  | 'n' => some '\n'
  | 'r' => some '\r'
  | 't' => some '\t'
  | 'v' => some '\x0b'
  | '\\' => some '\\'
  | '"' => some '"'
  | _ => none

/-- The characters of a text with escapes, written as bytes: a backslash stands in front of digits
in base eight or of a letter. `fuel` bounds the number of characters. -/
def escape (fuel : Nat) (cs : List Char) : Bytes :=
  match fuel, cs with
  | 0, _ => []
  | _, [] => []
  | fuel + 1, '\\' :: c :: cs =>
    if '0' ≤ c ∧ c ≤ '7' then
      let (value, rest) := octal 0 (if c = '0' then 4 else 3) (c :: cs)
      UInt8.ofNat value :: escape fuel rest
    else
      match escaped? c with
      | some e => Utf8.encode (String.ofList [e]) ++ escape fuel cs
      | none => Utf8.encode (String.ofList ['\\', c]) ++ escape fuel cs
  | fuel + 1, c :: cs => Utf8.encode (String.ofList [c]) ++ escape fuel cs

/-- The bytes of a format with arguments: as a text with escapes, but that a percent sign is written
twice or stands in front of a letter that calls for the next argument, as it is or with escapes of
its own. The arguments that are left over are given as well. -/
def formatOnce (fuel : Nat) (args : List String) (cs : List Char) : Bytes × List String :=
  match fuel, cs with
  | 0, _ => ([], args)
  | _, [] => ([], args)
  | fuel + 1, '%' :: '%' :: cs =>
    let (bytes, args) := formatOnce fuel args cs
    (Utf8.encode "%" ++ bytes, args)
  | fuel + 1, '%' :: c :: cs =>
    let arg := args.headD ""
    let (bytes, args) := formatOnce fuel args.tail cs
    ((if c = 'b' then escape arg.length arg.toList
      else if c = 'c' then Utf8.encode (String.ofList (arg.toList.take 1))
      else Utf8.encode arg) ++ bytes, args)
  | fuel + 1, '\\' :: c :: cs =>
    if '0' ≤ c ∧ c ≤ '7' then
      let (value, rest) := octal 0 3 (c :: cs)
      let (bytes, args) := formatOnce fuel args rest
      (UInt8.ofNat value :: bytes, args)
    else
      let (bytes, args) := formatOnce fuel args cs
      match escaped? c with
      | some e => (Utf8.encode (String.ofList [e]) ++ bytes, args)
      | none => (Utf8.encode (String.ofList ['\\', c]) ++ bytes, args)
  | fuel + 1, c :: cs =>
    let (bytes, args) := formatOnce fuel args cs
    (Utf8.encode (String.ofList [c]) ++ bytes, args)

/-- The bytes of a format, which is used again as long as there are arguments that it takes. `fuel`
bounds the number of uses. -/
def format (fuel : Nat) (text : String) (args : List String) : Bytes :=
  match fuel with
  | 0 => []
  | fuel + 1 =>
    let (bytes, left) := formatOnce text.length args text.toList
    if left.isEmpty ∨ left.length = args.length then bytes else bytes ++ format fuel text left

/-! ## Programs -/

/-- The number of bytes that the arguments of a program ask for. -/
def byteCount? : List String → Option Nat
  | ["-c", count] => Digits.readDecimal? count.toList
  | [word] =>
    match word.toList with
    | '-' :: 'c' :: digits => Digits.readDecimal? digits
    | _ => none
  | _ => none

/-- The stand-in of a program with arguments, if the program is one. -/
def ofProgram? (env : Environment) (name : String) (args : List String) : Option StandIn :=
  match name, args with
  | "true", _ | "sleep", _ => some (writes [])
  | "false", _ => some fails
  | "printf", text :: args => some (writes (format (args.length + 1) text args))
  | "echo", "-n" :: args => some (writes (Utf8.encode (" ".intercalate args)))
  | "echo", args => some (writes (Utf8.encode (" ".intercalate args ++ "\n")))
  | "printenv", [name] =>
    some (match env.lookup name with
      | some value => writes (Utf8.encode (value ++ "\n"))
      | none => fails)
  | "head", args => (byteCount? args).map repeats
  | _, _ => none

/-- The name of a program that is given by itself or by its place. -/
def programName (command : String) : String :=
  let cs := command.toList
  let place := ["/bin/", "/usr/bin/"].find? fun p => p.toList.isPrefixOf cs
  match place with
  | some p => String.ofList (cs.drop p.length)
  | none => command

end StandIn

end DebugWire
