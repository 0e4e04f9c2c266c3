import DebugWire.Text.Utf8

set_option autoImplicit false

/-!
# Chunked payloads

A payload of any length travels as frames of one tag byte, one length byte and at most 255 bytes. A
full frame goes on in the next one if that has the same tag; a shorter one ends the payload. An
empty payload takes one empty frame.

## Main definitions

* `DebugWire.Chunk.pieces` — bytes cut into pieces of 255.
* `DebugWire.Chunk.encode` — the frames of a payload.
* `DebugWire.Chunk.count` — their number.
* `DebugWire.Chunk.read?` — the payload at the front of bytes, and how many bytes it takes.
-/

namespace DebugWire.Chunk

/-- The most bytes that one frame carries. -/
def maxSize : Nat := 255

/-! ## Writing -/

/-- Bytes cut into pieces of 255, the last one as long as is left; no bytes give no piece. -/
def pieces (bytes : Bytes) : List Bytes :=
  if bytes.isEmpty then [] else bytes.take maxSize :: pieces (bytes.drop maxSize)
termination_by bytes.length
decreasing_by
  cases bytes with
  | nil => simp_all
  | cons b bs => simp only [List.length_drop, List.length_cons, maxSize]; omega

/-- One frame. -/
def frame (tag : UInt8) (piece : Bytes) : Bytes := tag :: UInt8.ofNat piece.length :: piece

/-- The frames of a payload. -/
def encode (tag : UInt8) (payload : Bytes) : Bytes :=
  if payload.isEmpty then frame tag [] else (pieces payload).flatMap (frame tag)

/-- The number of frames of a payload of the given length. -/
def count (length : Nat) : Nat := max 1 ((length + (maxSize - 1)) / maxSize)

/-! ## Reading -/

/-- The payload at the front of bytes whose frames have the given tag, and the number of bytes that
its frames take; nothing while a frame is incomplete. The first byte is taken for the tag without a
look. -/
def readFrom? (tag : UInt8) (bytes : Bytes) : Option (Bytes × Nat) :=
  match bytes with
  | _ :: length :: rest =>
    let piece := rest.take length.toNat
    if piece.length < length.toNat then none
    else
      let tail := rest.drop length.toNat
      if length.toNat = maxSize ∧ tail.head? = some tag then
        (readFrom? tag tail).map fun (more, n) => (piece ++ more, 2 + length.toNat + n)
      else some (piece, 2 + length.toNat)
  | _ => none
termination_by bytes.length
decreasing_by simp only [List.length_drop, List.length_cons]; omega

/-- The payload at the front of bytes and the number of bytes that its frames take. -/
def read? : Bytes → Option (Bytes × Nat)
  | [] => none
  | tag :: rest => readFrom? tag (tag :: rest)

/-- A payload that is read takes two bytes at least: a tag and a length.

**Proof sketch.** By the branches of `readFrom?`: both that give something add two to the length of
a piece. -/
theorem two_le_of_readFrom? {tag : UInt8} {bytes payload : Bytes} {n : Nat}
    (h : readFrom? tag bytes = some (payload, n)) : 2 ≤ n := by
  unfold readFrom? at h
  split at h
  · dsimp only at h
    split at h
    · simp at h
    · split at h
      · simp only [Option.map_eq_some_iff, Prod.mk.injEq] at h
        obtain ⟨_, _, _, rfl⟩ := h
        omega
      · simp only [Option.some.injEq, Prod.mk.injEq] at h
        omega
  · simp at h

end DebugWire.Chunk
