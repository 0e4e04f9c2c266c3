import DebugWire.Number.Digits
import DebugWire.Text.Utf8

set_option autoImplicit false

/-!
# Decoding one frame

What a decoder finds at the front of the bytes received so far: a value, the beginning of one, or
bytes that are no frame. After bytes that open no frame, decoding starts again at the next byte that
does.

## Main definitions

* `DebugWire.Malformed` — why bytes are no frame.
* `DebugWire.Decoded` — the result of a decoder.
* `DebugWire.Format` — a decoder that always makes progress.
* `DebugWire.resync` — the error for bytes that open no frame.
-/

namespace DebugWire

/-! ## Errors -/

/-- The two directions of the wire. -/
inductive Direction where
  | command
  | event
  deriving DecidableEq

/-- What the frames of a direction are called. -/
def Direction.name : Direction → String
  | command => "command"
  | event => "event"

/-- Why bytes are no frame. -/
inductive Malformed where
  /-- A first byte that opens no frame, and the number of bytes up to the next that may open one. -/
  | unknownTag (direction : Direction) (byte : UInt8) (skipped : Nat)
  /-- A key that is not supported. -/
  | unsupportedKey (code : UInt8)
  /-- A register number that stands for no register. -/
  | unknownRegister (id : UInt8)
  deriving DecidableEq

namespace Malformed

/-- The wording of an error. -/
def message : Malformed → String
  | unknownTag direction byte skipped =>
    "Unknown " ++ direction.name ++ " prefix " ++ Digits.hexByte byte
      ++ (if 1 < skipped then
        " (skipped " ++ String.ofList (Digits.text 10 skipped) ++ " bytes)" else "")
  | unsupportedKey code => "Unsupported key byte " ++ Digits.hexByte code
  | unknownRegister id => "Unknown register id " ++ Digits.hexByte id

/-- The place of the offending byte within the bytes that are given up. -/
def offset : Malformed → Nat
  | unknownTag .. => 0
  | _ => 1

end Malformed

/-! ## Results -/

/-- What a decoder finds at the front of bytes. -/
inductive Decoded (α : Type) where
  /-- A value, and the number of bytes that its frames take. -/
  | value (a : α) (consumed : Nat)
  /-- No value yet, but more bytes may give one. -/
  | incomplete
  /-- Bytes that are no frame, and their number. -/
  | malformed (cause : Malformed) (consumed : Nat)
  deriving DecidableEq

/-- The result with its value mapped. -/
def Decoded.map {α β : Type} (f : α → β) : Decoded α → Decoded β
  | value a n => value (f a) n
  | incomplete => incomplete
  | malformed c n => malformed c n

/-- The number of bytes that a result gives up. -/
def Decoded.consumed {α : Type} : Decoded α → Nat
  | value _ n => n
  | incomplete => 0
  | malformed _ n => n

/-- A decoder that waits when there are no bytes and otherwise gives up at least one with every
result. -/
structure Format (α : Type) where
  /-- What is at the front of bytes. -/
  decode : Bytes → Decoded α
  /-- Without bytes there is nothing to decode. -/
  decode_nil : decode [] = .incomplete
  /-- A value takes bytes. -/
  value_pos : ∀ {bytes : Bytes} {a : α} {n : Nat}, decode bytes = .value a n → 0 < n
  /-- An error takes bytes. -/
  malformed_pos : ∀ {bytes : Bytes} {c : Malformed} {n : Nat}, decode bytes = .malformed c n → 0 < n

/-- The error for a first byte that opens no frame, up to the next byte that does or to the end. -/
def resync {α : Type} (direction : Direction) (opens : UInt8 → Bool) (first : UInt8)
    (rest : Bytes) :
    Decoded α :=
  let skipped := 1 + (rest.takeWhile fun b => !opens b).length
  .malformed (.unknownTag direction first skipped) skipped

end DebugWire
