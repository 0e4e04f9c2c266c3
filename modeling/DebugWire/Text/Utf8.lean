set_option autoImplicit false

/-!
# UTF-8

Text as bytes and back. Every text has one encoding. Any bytes decode: a well-formed sequence gives
its character, and each maximal part of one that goes no further gives one replacement character. A
byte order mark is kept.

## Main definitions

* `DebugWire.Bytes` — byte sequences.
* `DebugWire.Utf8.encode` — the bytes of a text.
* `DebugWire.Utf8.decode` — the text of any bytes.
-/

namespace DebugWire

/-- A sequence of bytes. -/
abbrev Bytes := List UInt8

namespace Utf8

/-- The bytes of a text. -/
def encode (s : String) : Bytes := s.toList.flatMap String.utf8EncodeChar

/-- The character that stands for bytes that are no text. -/
def replacement : Char := '\ufffd'

/-- Whether a byte may follow inside a sequence without further condition. -/
def isContinuation (b : UInt8) : Bool := 0x80 ≤ b && b ≤ 0xbf

/-- Whether a byte may stand second in a sequence with the given first byte: some first bytes leave
out the encodings that are too long, the surrogates, and what lies beyond the last character. -/
def isSecond (first b : UInt8) : Bool :=
  if first = 0xe0 then 0xa0 ≤ b && b ≤ 0xbf
  else if first = 0xed then 0x80 ≤ b && b ≤ 0x9f
  else if first = 0xf0 then 0x90 ≤ b && b ≤ 0xbf
  else if first = 0xf4 then 0x80 ≤ b && b ≤ 0x8f
  else isContinuation b

/-- The six low bits of a byte. -/
def low6 (b : UInt8) : Nat := b.toNat % 64

/-- The characters of any bytes. -/
def decodeChars : Bytes → List Char
  | [] => []
  | b₀ :: r₀ =>
    if b₀ < 0x80 then Char.ofNat b₀.toNat :: decodeChars r₀
    else if 0xc2 ≤ b₀ ∧ b₀ ≤ 0xf4 then
      match r₀ with
      | [] => [replacement]
      | b₁ :: r₁ =>
        if !isSecond b₀ b₁ then replacement :: decodeChars (b₁ :: r₁)
        else if b₀ < 0xe0 then
          Char.ofNat (b₀.toNat % 32 * 64 + low6 b₁) :: decodeChars r₁
        else
          match r₁ with
          | [] => [replacement]
          | b₂ :: r₂ =>
            if !isContinuation b₂ then replacement :: decodeChars (b₂ :: r₂)
            else if b₀ < 0xf0 then
              Char.ofNat (b₀.toNat % 16 * 4096 + low6 b₁ * 64 + low6 b₂) :: decodeChars r₂
            else
              match r₂ with
              | [] => [replacement]
              | b₃ :: r₃ =>
                if !isContinuation b₃ then replacement :: decodeChars (b₃ :: r₃)
                else
                  Char.ofNat (b₀.toNat % 8 * 262144 + low6 b₁ * 4096 + low6 b₂ * 64 + low6 b₃)
                    :: decodeChars r₃
    else replacement :: decodeChars r₀

/-- The text of any bytes. -/
def decode (bytes : Bytes) : String := String.ofList (decodeChars bytes)

end Utf8

end DebugWire
