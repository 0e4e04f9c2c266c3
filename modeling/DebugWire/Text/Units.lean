import DebugWire.Text.Utf8

set_option autoImplicit false

/-!
# UTF-16 units

The devices count the units of UTF-16, in which a character beyond `U+FFFF` takes two: a *surrogate
pair*. A client may hand over a text as any units at all, and then one half of a pair can stand
without the other. No bytes stand for such a half, so on the way to the device it becomes the
replacement character.

## Main definitions

* `DebugWire.Units.ofText` — the units of a text.
* `DebugWire.Units.size` — their number.
* `DebugWire.Units.lowBytes` — the low byte of each.
* `DebugWire.Units.chars` — the characters of any units.
* `DebugWire.Utf16` — a text as its units.
* `DebugWire.Utf16.repaired` — the text that its bytes carry.
-/

namespace DebugWire

namespace Units

/-- The units of a character. -/
def ofChar (c : Char) : List Nat :=
  let n := c.toNat
  if n < 0x10000 then [n] else [0xd800 + (n - 0x10000) / 0x400, 0xdc00 + (n - 0x10000) % 0x400]

/-- The units of a text. -/
def ofText (s : String) : List Nat := s.toList.flatMap ofChar

/-- The number of units of a text. -/
def size (s : String) : Nat := (ofText s).length

/-- The low byte of each unit of a text. -/
def lowBytes (s : String) : Bytes := (ofText s).map UInt8.ofNat

/-! ## Surrogates -/

/-- Whether a unit is the first of a surrogate pair. -/
def isHighSurrogate (u : Nat) : Bool := 0xd800 ≤ u && u < 0xdc00

/-- Whether a unit is the second of a surrogate pair. -/
def isLowSurrogate (u : Nat) : Bool := 0xdc00 ≤ u && u < 0xe000

/-- The character of a unit; the replacement character for half a surrogate pair. -/
def unitChar (u : Nat) : Char :=
  if isHighSurrogate u ∨ isLowSurrogate u then Utf8.replacement else Char.ofNat u

/-- The character of a surrogate pair. -/
def pairChar (high low : Nat) : Char :=
  Char.ofNat (0x10000 + (high - 0xd800) * 0x400 + (low - 0xdc00))

/-- The characters of any units. Each half of a pair that stands alone gives the replacement
character. -/
def chars : List Nat → List Char
  | [] => []
  | [u] => [unitChar u]
  | u :: w :: us =>
    if isHighSurrogate u && isLowSurrogate w then pairChar u w :: chars us
    else unitChar u :: chars (w :: us)

end Units

/-! ## Texts of units -/

/-- A text as its UTF-16 units, of which any sequence is one. -/
structure Utf16 where
  /-- The units. -/
  units : List UInt16
  deriving DecidableEq

namespace Utf16

/-- The units of a text of characters. -/
def ofString (s : String) : Utf16 := ⟨(Units.ofText s).map UInt16.ofNat⟩

instance : Coe String Utf16 := ⟨ofString⟩

/-- The number of units. -/
def size (t : Utf16) : Nat := t.units.length

/-- The text with the replacement character in place of each surrogate that has no partner. This is
what its bytes carry. -/
def repaired (t : Utf16) : String := String.ofList (Units.chars (t.units.map UInt16.toNat))

end Utf16

end DebugWire
