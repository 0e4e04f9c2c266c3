import DebugWire.Number.Text
import DebugWire.Text.Blank
import DebugWire.Text.Utf8

set_option autoImplicit false

/-!
# Bytes as hex text

Bytes are written as two digits each, letters in lower case. They are read in either case, with one
`0x` in front, and with blanks and colons anywhere. A dump shows sixteen bytes a row, with their
address in front and the printable characters behind.

## Main definitions

* `DebugWire.Hex.ofBytes` — the digits of bytes.
* `DebugWire.Hex.parse?` — the bytes that a text stands for.
* `DebugWire.Hex.dump` — bytes in rows.
-/

namespace DebugWire.Hex

/-! ## Digits -/

/-- The two digits of a byte. -/
def byteChars (b : UInt8) : List Char :=
  [Nat.digitChar (b.toNat / 16), Nat.digitChar (b.toNat % 16)]

/-- The digits of bytes as characters. -/
def chars (bytes : Bytes) : List Char := bytes.flatMap byteChars

/-- The digits of bytes. -/
def ofBytes (bytes : Bytes) : String := String.ofList (chars bytes)

/-! ## Reading -/

/-- The text behind one `0x` or `0X`, if it begins with one. -/
def dropMark : List Char → List Char
  | '0' :: 'x' :: cs => cs
  | '0' :: 'X' :: cs => cs
  | cs => cs

/-- Whether a character only separates digits. -/
def isSeparator (c : Char) : Bool := Text.isBlank c || c == ':'

/-- The digits of a text without mark and separators. -/
def digits (cs : List Char) : List Char := (dropMark cs).filter fun c => !isSeparator c

/-- The bytes of an even number of digits, behind bytes `seen` in reverse order. -/
def pairsFrom? (seen : Bytes) : List Char → Option Bytes
  | [] => some seen.reverse
  | [_] => none
  | a :: b :: cs =>
    match Digits.hexValue? a, Digits.hexValue? b with
    | some x, some y => pairsFrom? (UInt8.ofNat (x * 16 + y) :: seen) cs
    | _, _ => none

/-- The bytes that a text stands for. -/
def parse? (s : String) : Option Bytes := pairsFrom? [] (digits s.toList)

/-- What is said of a text that stands for no bytes. -/
def invalidMessage (s : String) : String := "Invalid hex string: " ++ s

/-! ## Dumps -/

/-- A byte as a printable character of ASCII, a dot for any other. -/
def printable (b : UInt8) : Char := if 0x20 ≤ b ∧ b < 0x7f then Char.ofNat b.toNat else '.'

/-- The bytes of a row as two digits each with a blank between them. -/
def rowChars : Bytes → List Char
  | [] => []
  | [b] => byteChars b
  | b :: bs => byteChars b ++ ' ' :: rowChars bs

/-- A row of at most sixteen bytes at an address. -/
def row (address : Number) (bytes : Bytes) : List Char :=
  let columns := rowChars bytes
  Digits.padLeft 4 '0' address.hexChars ++ ' ' :: ' ' :: columns
    ++ List.replicate (47 - columns.length) ' ' ++ ' ' :: ' ' :: '|' :: bytes.map printable ++ ['|']

/-- The rows of bytes that begin `offset` bytes behind `base`. -/
def rowsFrom (base : Number) (offset : Nat) (bytes : Bytes) : List (List Char) :=
  if bytes.isEmpty then []
  else row (base + (offset : Number)) (bytes.take 16) :: rowsFrom base (offset + 16) (bytes.drop 16)
termination_by bytes.length
decreasing_by
  cases bytes with
  | nil => simp_all
  | cons b bs => simp only [List.length_drop, List.length_cons]; omega

/-- The rows of a dump whose first byte is at `base`. -/
def rows (base : Number) (bytes : Bytes) : List (List Char) := rowsFrom base 0 bytes

/-- Bytes in rows of sixteen. -/
def dump (base : Number) (bytes : Bytes) : String :=
  String.ofList (List.intercalate ['\n'] (rows base bytes))

end DebugWire.Hex
