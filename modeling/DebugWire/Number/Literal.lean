import DebugWire.Number.Text
import DebugWire.Text.Blank

set_option autoImplicit false

/-!
# Numbers as they are given on a command line

Blanks around a number do not matter, and no text at all is zero. Base sixteen, eight and two have a
prefix `0x`, `0o` and `0b` and no sign. A decimal number may have a sign, a point and an exponent.
Any other text is no number.

## Main definitions

* `DebugWire.Number.ofLiteral` — the number that a text stands for.
-/

namespace DebugWire.Number

/-- The digits at the front of a text, and what follows them. -/
def spanDigits (cs : List Char) : List Char × List Char :=
  (cs.takeWhile Char.isDigit, cs.dropWhile Char.isDigit)

/-- Whether characters are one or more digits. -/
def areDigits (cs : List Char) : Bool := !cs.isEmpty && cs.all Char.isDigit

/-- The value of decimal digits. -/
def digitsValue (cs : List Char) : Nat := Digits.value 10 (cs.filterMap Digits.decimalValue?)

/-- A sign at the front of a text: whether it is a minus, and what follows. -/
def takeSign : List Char → Bool × List Char
  | '-' :: cs => (true, cs)
  | '+' :: cs => (false, cs)
  | cs => (false, cs)

/-- The exponent that a text is, if it is one. Without a text the exponent is zero. -/
def exponent? : List Char → Option Int
  | [] => some 0
  | c :: cs =>
    if c = 'e' ∨ c = 'E' then
      let (negative, digits) := takeSign cs
      if digits.isEmpty ∨ ¬digits.all Char.isDigit then none
      else
        let n : Int := digitsValue digits
        some (if negative then -n else n)
    else none

/-- The number that a text without sign stands for in decimal. -/
def decimal? (negative : Bool) (cs : List Char) : Option Number :=
  let (before, rest) := spanDigits cs
  let (after, rest) := match rest with
    | '.' :: rest => spanDigits rest
    | rest => ([], rest)
  if before.isEmpty && after.isEmpty then none
  else (exponent? rest).map fun e =>
    ofDecimal negative (digitsValue (before ++ after)) (e - (after.length : Int))

/-- The number that a text with an optional sign stands for in decimal. -/
def signed? (cs : List Char) : Option Number :=
  let (negative, cs) := takeSign cs
  if String.ofList cs = "Infinity" then some (infinite negative) else decimal? negative cs

/-- The digit in a base of at most sixteen that a character is. -/
def digitIn? (base : Nat) (c : Char) : Option Nat := (Digits.hexValue? c).filter (· < base)

/-- The number that one or more digits in a base stand for. -/
def inBase? (base : Nat) (cs : List Char) : Option Number :=
  if cs.isEmpty then none else (cs.mapM (digitIn? base)).map fun ds => ofInt (Digits.value base ds)

/-- The number that a text without blanks around it stands for. -/
def trimmed? : List Char → Option Number
  | [] => some 0
  | '0' :: 'x' :: cs | '0' :: 'X' :: cs => inBase? 16 cs
  | '0' :: 'o' :: cs | '0' :: 'O' :: cs => inBase? 8 cs
  | '0' :: 'b' :: cs | '0' :: 'B' :: cs => inBase? 2 cs
  | cs => signed? cs

/-- The number that a text stands for; not a number if it stands for none. -/
def ofLiteral (s : String) : Number := (trimmed? (Text.trim s.toList)).getD nan

end DebugWire.Number
