import DebugWire.Wire.Reader
import Mathlib.Data.Nat.Notation
import Mathlib.Tactic.Lemma

set_option relaxedAutoImplicit false
set_option autoImplicit false

/-!
# Draining a reader

What a reader hands out, one result of its decoder at a time: the equations of
`DebugWire.Reader.drain` and the induction that follows it.

## Main definitions

* `DebugWire.Decoded.item?` — the item that a reader hands out for a result.

## Main results

* `DebugWire.Reader.drain_of_incomplete`, `DebugWire.Reader.drain_of_item` — draining by the first
  result.
* `DebugWire.Format.drain_induction` — induction along the results.
-/

namespace DebugWire

/-- The item that a reader hands out for a result. -/
def Decoded.item? {α : Type} : Decoded α → Option (Item α)
  | value a _ => some (.value a)
  | incomplete => none
  | malformed c _ => some (.malformed c)

/-- A result with an item is not the wait for more bytes. -/
lemma Decoded.ne_incomplete_of_item? {α : Type} {d : Decoded α} {i : Item α}
    (h : d.item? = some i) :
    d ≠ .incomplete := by
  rintro rfl
  cases h

/-- Every result but the wait for more bytes has an item. -/
lemma Decoded.exists_item?_of_ne_incomplete {α : Type} {d : Decoded α} (h : d ≠ .incomplete) :
    ∃ i, d.item? = some i := by
  cases d with
  | value a n => exact ⟨_, rfl⟩
  | incomplete => exact absurd rfl h
  | malformed c n => exact ⟨_, rfl⟩

variable {α : Type} (f : Format α)

/-- A result with an item takes bytes, so draining comes to its end. -/
lemma Format.consumed_pos_of_item? {bytes : Bytes} {i : Item α}
    (h : (f.decode bytes).item? = some i) :
    0 < (f.decode bytes).consumed := by
  cases hd : f.decode bytes with
  | value a n => exact f.value_pos hd
  | incomplete => rw [hd] at h; cases h
  | malformed c n => exact f.malformed_pos hd

/-- Only bytes that are there give an item; of none, more are waited for. -/
lemma Format.ne_nil_of_item? {bytes : Bytes} {i : Item α} (h : (f.decode bytes).item? = some i) :
    bytes ≠ [] := by
  rintro rfl
  rw [f.decode_nil] at h
  cases h

namespace Reader

/-- The next item is that of the decoder, and it takes its bytes. -/
lemma next?_eq (bytes : Bytes) :
    next? f ⟨bytes⟩ =
      (f.decode bytes).item?.map fun i => (i, ⟨bytes.drop (f.decode bytes).consumed⟩) := by
  unfold next?
  cases f.decode bytes <;> rfl

/-- An incomplete frame stays in the reader.

**Proof sketch.** Without an item the recursion of `drain` stops at once. -/
lemma drain_of_incomplete {f : Format α} {bytes : Bytes} (h : f.decode bytes = .incomplete) :
    drain f ⟨bytes⟩ = ([], ⟨bytes⟩) := by
  have hn : next? f ⟨bytes⟩ = none := by
    rw [next?_eq, h]
    rfl
  unfold drain
  split
  · rfl
  · rename_i e
    rw [hn] at e
    cases e

/-- An item is handed out, and then what the bytes behind it give.

**Proof sketch.** The recursion of `drain` hands out the next item first, and that is the one that
was decoded. -/
lemma drain_of_item {f : Format α} {bytes : Bytes} {i : Item α}
    (h : (f.decode bytes).item? = some i) :
    drain f ⟨bytes⟩ =
      (i :: (drain f ⟨bytes.drop (f.decode bytes).consumed⟩).1,
        (drain f ⟨bytes.drop (f.decode bytes).consumed⟩).2) := by
  have hn : next? f ⟨bytes⟩ = some (i, ⟨bytes.drop (f.decode bytes).consumed⟩) := by
    rw [next?_eq, h]
    rfl
  conv => lhs; unfold drain
  split
  · rename_i e
    rw [hn] at e
    cases e
  · rename_i e
    rw [hn] at e
    obtain ⟨rfl, rfl⟩ := Prod.mk.inj (Option.some.inj e)
    rfl

/-- A value is handed out, and then what the bytes behind it give. -/
lemma drain_of_value {f : Format α} {bytes : Bytes} {a : α} {n : ℕ}
    (h : f.decode bytes = .value a n) :
    drain f ⟨bytes⟩ = (.value a :: (drain f ⟨bytes.drop n⟩).1, (drain f ⟨bytes.drop n⟩).2) := by
  have hi : (f.decode bytes).item? = some (.value a) := by
    rw [h]
    rfl
  rw [drain_of_item hi, h]
  rfl

/-- A reader that hands out nothing has no item and stays as it is. -/
lemma next?_of_drain_eq_nil {f : Format α} {r last : Reader} (h : r.drain f = ([], last)) :
    r.next? f = none ∧ r = last := by
  rw [drain] at h
  split at h
  case h_1 hn => exact ⟨hn, (Prod.mk.inj h).2⟩
  case h_2 => cases (Prod.mk.inj h).1

/-- What a reader hands out is its next item and then what is handed out behind it. -/
lemma next?_of_drain_eq_cons {f : Format α} {r last : Reader} {i : Item α} {items : List (Item α)}
    (h : r.drain f = (i :: items, last)) :
    ∃ r', r.next? f = some (i, r') ∧ r'.drain f = (items, last) := by
  rw [drain] at h
  split at h
  case h_1 => cases (Prod.mk.inj h).1
  case h_2 j r' hn =>
    obtain ⟨hitems, hlast⟩ := Prod.mk.inj h
    obtain ⟨hi, htail⟩ := List.cons.inj hitems
    exact ⟨r', hi ▸ hn, Prod.ext htail hlast⟩

/-- Nothing is handed out of an empty reader, and it stays empty. -/
@[simp]
lemma drain_nil : drain f ⟨[]⟩ = ([], ⟨[]⟩) := drain_of_incomplete f.decode_nil

end Reader

/-- Induction along the results of a decoder: bytes that wait for more, and bytes with a result in
front of others.

**Proof sketch.** Strong induction on the number of bytes: an item takes some of them, so fewer are
left. -/
@[elab_as_elim]
theorem Format.drain_induction {motive : Bytes → Prop}
    (stop : ∀ bytes, f.decode bytes = .incomplete → motive bytes)
    (item : ∀ bytes i, (f.decode bytes).item? = some i →
      motive (bytes.drop (f.decode bytes).consumed) → motive bytes)
    (bytes : Bytes) : motive bytes := by
  induction hn : bytes.length using Nat.strongRecOn generalizing bytes with
  | ind n ih =>
    by_cases h : f.decode bytes = .incomplete
    · exact stop bytes h
    · obtain ⟨i, hi⟩ := Decoded.exists_item?_of_ne_incomplete h
      have hc := f.consumed_pos_of_item? hi
      have hb := List.length_pos_iff.2 (f.ne_nil_of_item? hi)
      refine item bytes i hi (ih _ ?_ _ rfl)
      rw [List.length_drop]
      omega

/-- What is left in a reader that was drained is the beginning of a frame at most. -/
lemma Reader.decode_drain (bytes : Bytes) : f.decode (drain f ⟨bytes⟩).2.buffer = .incomplete := by
  induction bytes using f.drain_induction with
  | stop bytes h =>
    rw [drain_of_incomplete h]
    exact h
  | item bytes i hi ih =>
    rw [drain_of_item hi]
    exact ih

/-- A value that is handed out was decoded from bytes.

**Proof sketch.** Induction on what is drained: the value is the first item, so the one that was
decoded, or is handed out behind it. -/
lemma Reader.exists_decode_of_mem_drain {bytes : Bytes} {a : α}
    (h : .value a ∈ (drain f ⟨bytes⟩).1) :
    ∃ rest n, f.decode rest = .value a n := by
  induction bytes using f.drain_induction with
  | stop bytes hd =>
    rw [drain_of_incomplete hd] at h
    cases h
  | item bytes i hi ih =>
    rw [drain_of_item hi] at h
    rcases List.mem_cons.1 h with rfl | h
    · cases hd : f.decode bytes with
      | value b n =>
        rw [hd] at hi
        obtain rfl : b = a := Item.value.inj (Option.some.inj hi)
        exact ⟨bytes, n, hd⟩
      | incomplete | malformed => rw [hd] at hi; cases hi
    · exact ih h

end DebugWire
