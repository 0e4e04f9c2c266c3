import DebugWire.Number.Text
import DebugWire.Text.Blank

set_option autoImplicit false

/-!
# Addresses as text

An address is typed in decimal, or in base sixteen behind `x` or `0x`; an `@` may stand in front of
both. It has sixteen bits. It is shown in base sixteen with at least four digits.

## Main definitions

* `DebugWire.Address.parse` — the address that a text stands for.
* `DebugWire.Address.format` — the text of an address.
-/

namespace DebugWire.Address

/-- Why a text is no address. -/
inductive Problem where
  /-- The text has not the form of an address. -/
  | invalid (text : String)
  /-- The text has the form of an address but its number needs more than sixteen bits. -/
  | tooLarge (text : String)
  deriving DecidableEq

/-- The wording of a problem. -/
def Problem.message : Problem → String
  | invalid text => "Invalid address: " ++ text
  | tooLarge text => "Address out of range (0..65535): " ++ text

/-- The number of digits in base sixteen behind `x` or `0x`, or of decimal digits. -/
def number? (cs : List Char) : Option Nat :=
  match cs with
  | '0' :: 'x' :: ds => Digits.readHex? ds
  | '0' :: 'X' :: ds => Digits.readHex? ds
  | 'x' :: ds => Digits.readHex? ds
  | 'X' :: ds => Digits.readHex? ds
  | ds => Digits.readDecimal? ds

/-- The text without one `@` in front. -/
def dropAt : List Char → List Char
  | '@' :: cs => cs
  | cs => cs

/-- The address that a text stands for. Digits may be of any number, so what they stand for is
rounded to binary64 before it is checked. -/
def parse (s : String) : Except Problem Nat :=
  match number? (dropAt (Text.trim s.toList)) with
  | none => .error (.invalid s)
  | some n =>
    match (Number.ofInt n).within? 0xffff with
    | some a => .ok a
    | none => .error (.tooLarge s)

/-- The text of an address: at least four digits in base sixteen, letters in upper case. -/
def format (address : Number) : String :=
  "0x" ++ String.ofList (Digits.padLeft 4 '0' (address.hexChars.map Char.toUpper))

end DebugWire.Address
