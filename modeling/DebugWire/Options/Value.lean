import DebugWire.Json.Basic
import DebugWire.Number.Literal

set_option autoImplicit false

/-!
# Values of options

The value of an option is a JSON value; `null` stands for the option without a value. What is given
on the command line is taken by the kind of the option, and an option that is given again gathers
its values.

## Main definitions

* `DebugWire.OptionKind` — what an option takes.
* `DebugWire.Json.isTrue` — whether a value counts as true.
* `DebugWire.Json.word` — the text of a value.
* `DebugWire.OptionKind.take` — a value by the kind of the option.
* `DebugWire.Json.again` — a value after one more.
-/

namespace DebugWire

/-- What an option takes. -/
inductive OptionKind where
  | flag
  | number
  | text
  | list
  deriving DecidableEq

namespace Json

/-- Whether a value counts as true. Zero, what is no number, the empty text and `null` do not. -/
def isTrue : Json → Bool
  | null => false
  | bool b => b
  | number x => x ≠ 0 ∧ x ≠ .nan
  | string s => !s.isEmpty
  | array _ => true
  | object _ => true

mutual

/-- The text of a value. The items of a list have commas between them, and what an object holds is
not told. -/
def word : Json → String
  | null => ""
  | bool true => "true"
  | bool false => "false"
  | number x => x.text
  | string s => s
  | array items => ",".intercalate (words items)
  | object _ => "[object Object]"

/-- The texts of values. -/
def words : List Json → List String
  | [] => []
  | v :: vs => word v :: words vs

end

/-! ## One more value -/

/-- A value after the number one was given: it is counted up, or a one is written behind its text.
-/
def increment : Json → Json
  | null => number 1
  | bool b => number (if b then 2 else 1)
  | number x => number (x + 1)
  | v => string (v.word ++ "1")

/-- A value after one more was given. The number one counts up; a list grows; a flag takes the last
value; other values become a list when a second one is given. -/
def again (kind : Option OptionKind) (old new : Json) : Json :=
  if new.number? = some 1 then old.increment
  else
    match old, new with
    | array xs, array ys => if kind = some .list then array (xs ++ ys) else array (xs ++ [array ys])
    | array xs, v => array (xs ++ [v])
    | null, array ys => array ys
    | null, v => if kind = some .list then array [v] else v
    | v, w => if kind = some .flag then w else array [v, w]

end Json

/-! ## What a kind makes of a value -/

/-- Whether characters are a decimal number that may start or end with the point, with at most
blanks behind it. -/
def isDecimalWord (cs : List Char) : Bool :=
  let (before, rest) := Number.spanDigits (match cs with
    | '-' :: cs => cs
    | cs => cs)
  let (after, rest) := match rest with
    | '.' :: rest => Number.spanDigits rest
    | rest => ([], rest)
  let exponent : List Char → Bool
    | [] => true
    | 'e' :: cs => Number.areDigits (Number.takeSign cs).2
    | _ => false
  !(before.isEmpty && after.isEmpty) && exponent (Text.trimEnd rest)

/-- The number that a word is by itself: in base sixteen, or a decimal number without needless zeros
in front whose whole part is exact. -/
def numberWord? (s : String) : Option Number :=
  match s.toList with
  | '0' :: 'x' :: cs | '0' :: 'X' :: cs => Number.inBase? 16 cs
  | '0' :: c :: cs => if c = '.' then decimal ('0' :: c :: cs) else none
  | cs => decimal cs
where
  /-- The number that decimal characters stand for. -/
  decimal (cs : List Char) : Option Number :=
    if isDecimalWord cs then
      (Number.ofLiteral s).truncate.bind fun n =>
        if n.natAbs < Number.exactLimit then some (.ofLiteral s) else none
    else none

/-- A value by the kind of the option: a flag is set by the word `true` alone, and a number is read.
What is given to an option that is not known is a number if it looks like one. -/
def OptionKind.take (kind : Option OptionKind) (given : Json) : Json :=
  match kind, given with
  | some .flag, .string s => .bool (s = "true")
  | some .number, .string s => .number (.ofLiteral s)
  | some .number, .bool b => .number (if b then 1 else 0)
  | none, .string s => ((numberWord? s).map .number).getD (.string s)
  | _, v => v

end DebugWire
