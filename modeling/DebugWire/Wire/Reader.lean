import DebugWire.Wire.Decoding

set_option autoImplicit false

/-!
# Reading frames from chunks

A reader keeps the bytes that have come in and hands out what they decode to, one item after the
other. The bytes of an incomplete frame stay until the rest has come.

## Main definitions

* `DebugWire.Item` — a decoded value or a decoding error.
* `DebugWire.Reader` — the bytes that wait.
* `DebugWire.Reader.push`, `DebugWire.Reader.next?`, `DebugWire.Reader.drain` — its operations.
-/

namespace DebugWire

/-- What a reader hands out. -/
inductive Item (α : Type) where
  /-- A decoded value. -/
  | value (a : α)
  /-- An error for bytes that have been given up. -/
  | malformed (cause : Malformed)
  deriving DecidableEq

/-- The bytes that have come in and are not yet decoded. -/
structure Reader where
  /-- The bytes, the oldest first. -/
  buffer : Bytes
  deriving DecidableEq

namespace Reader

/-- A reader without bytes. -/
def empty : Reader := ⟨[]⟩

/-- The reader after a chunk has come in. -/
def push (r : Reader) (chunk : Bytes) : Reader := ⟨r.buffer ++ chunk⟩

/-- The number of bytes that wait. -/
def size (r : Reader) : Nat := r.buffer.length

/-- The next item, and the reader without its bytes; nothing while no frame is complete. -/
def next? {α : Type} (f : Format α) (r : Reader) : Option (Item α × Reader) :=
  match f.decode r.buffer with
  | .value a n => some (.value a, ⟨r.buffer.drop n⟩)
  | .malformed c n => some (.malformed c, ⟨r.buffer.drop n⟩)
  | .incomplete => none

/-- Every item takes bytes out of the reader.

**Proof sketch.** A value and an error both take bytes, by the laws of the format, and there are
some, because no bytes are incomplete. -/
theorem size_lt_of_next? {α : Type} {f : Format α} {r r' : Reader} {i : Item α}
    (h : r.next? f = some (i, r')) : r'.size < r.size := by
  have drop_lt : ∀ n, 0 < n → f.decode r.buffer ≠ .incomplete →
      (r.buffer.drop n).length < r.buffer.length := by
    intro n pos ne
    have : r.buffer ≠ [] := fun e => ne (by rw [e, f.decode_nil])
    have := List.length_pos_iff.2 this
    rw [List.length_drop]
    omega
  unfold next? at h
  split at h
  · rename_i a n e
    simp only [Option.some.injEq, Prod.mk.injEq] at h
    rw [← h.2]
    exact drop_lt n (f.value_pos e) (by simp [e])
  · rename_i c n e
    simp only [Option.some.injEq, Prod.mk.injEq] at h
    rw [← h.2]
    exact drop_lt n (f.malformed_pos e) (by simp [e])
  · simp at h

/-- All items that the bytes give, and the reader with what is left. -/
def drain {α : Type} (f : Format α) (r : Reader) : List (Item α) × Reader :=
  match _h : r.next? f with
  | none => ([], r)
  | some (i, r') =>
    let (items, last) := drain f r'
    (i :: items, last)
termination_by r.size
decreasing_by exact size_lt_of_next? _h

end Reader

end DebugWire
