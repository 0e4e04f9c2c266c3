import DebugWire.Proofs.Machine.Calls
import DebugWire.Proofs.Number.Counting

set_option relaxedAutoImplicit false
set_option autoImplicit false

/-!
# Ranges of memory

Checked access lets a range through that neither begins before memory nor ends behind it. On a plain
machine, reading such a range gives its bytes, and writing it writes them, as long as the memory
buffer has room at that address.

## Main definitions

* `DebugWire.Machine.Holds`, `DebugWire.Machine.HasRoom` — a range that checked access lets through,
  and bytes that fit into the memory buffer.

## Main results

* `DebugWire.Machine.checked_checkRange` — a call behind the check of its range.
* `DebugWire.Machine.holds_natCast` — a range at places that can be counted.
* `DebugWire.Machine.Plain.readRange_eq_ite`, `DebugWire.Machine.Plain.readStack_eq_ite` — what is
  read.
* `DebugWire.Machine.Plain.write_of_truncate`, `DebugWire.Machine.Plain.write_of_not_hasRoom` — what
  is written.
-/

namespace DebugWire

namespace Machine

variable {m : Machine}

/-! ## The check of a range -/

/-- A machine *holds* the `length` bytes at an address if these neither begin before its memory nor
end behind it. -/
def Holds (m : Machine) (address length : Number) : Prop :=
  address.isNegative = false ∧ Number.lt (m.size : Number) (address + length) = false

instance (m : Machine) (address length : Number) : Decidable (m.Holds address length) :=
  inferInstanceAs (Decidable (_ ∧ _))

/-- The check of a range passes exactly if memory holds it, and names the range otherwise. -/
lemma checkRange_eq (m : Machine) (address length : Number) :
    m.checkRange address length =
      if m.Holds address length then .ok () else .error (.outOfRange address length m.size) := by
  have hiff : m.Holds address length ↔
      (address.isNegative || Number.lt (m.size : Number) (address + length)) = false :=
        Bool.or_eq_false_iff.symm
  rw [checkRange]
  cases hb : address.isNegative || Number.lt (m.size : Number) (address + length) with
  | true => rw [if_pos rfl, if_neg (by rw [hiff, hb]; exact Bool.false_ne_true.symm)]
  | false => rw [if_neg Bool.false_ne_true, if_pos (hiff.2 hb)]

/-- A call behind the check of a range is made if memory holds the range, and is a fault otherwise.
-/
lemma checked_checkRange {α : Type} (m : Machine) (address length : Number) (call : Call α) :
    m.checked (m.checkRange address length) call =
      if m.Holds address length then call else .fault m (.outOfRange address length m.size) := by
  rw [checkRange_eq]
  split_ifs <;> rfl

/-- Bytes at a place that can be counted are held exactly if they end inside of memory. -/
lemma holds_natCast {a n : ℕ} (h : a + n ≤ Number.exactLimit) :
    m.Holds (a : Number) (n : Number) ↔ a + n ≤ m.size := by
  have hneg : Number.isNegative (a : Number) = false :=
    (Number.lt_natCast a 0).trans (decide_eq_false (Nat.not_lt_zero a))
  rw [Holds, Number.natCast_add_natCast h, Number.lt_natCast, decide_eq_false_iff_not, Nat.not_lt]
  exact and_iff_right hneg

/-- Nothing is held at a place before memory, however long it is. -/
lemma not_holds_of_neg {n : ℤ} (h : n < 0) (length : Number) : ¬ m.Holds (.whole n) length := by
  intro hin
  have hplace := hin.1
  rw [Number.isNegative, Number.lt_whole, decide_eq_false_iff_not] at hplace
  exact hplace h

/-! ## Access to a plain machine -/

/-- Bytes to write *have room* if they fit into the memory buffer from the whole part of their
address on. -/
def HasRoom (m : Machine) (address : Number) (length : ℕ) : Prop :=
  ∃ n, address.truncate = some n ∧ 0 ≤ n ∧ n + length ≤ m.size

namespace Plain

/-- Reading a range of a plain machine is a fault if the range is inverted or not held by memory,
each with its own; otherwise it gives the bytes of the range. -/
lemma readRange_eq_ite (h : m.Plain) (first limit : Number) :
    m.readRange first limit =
      if limit.lt first then .fault m (.invertedRange first limit)
      else if m.Holds first (limit - first) then .done m
        (slice m.memory first (first + (limit - first)))
      else .fault m (.outOfRange first (limit - first) m.size) := by
  rw [readRange, checked_checkRange, h.read_eq]

/-- Reading the stack of a plain machine gives nothing if the stack pointer is at the end of memory
or behind it, and otherwise the bytes from there on, if memory holds them. -/
lemma readStack_eq_ite (h : m.Plain) :
    m.readStack =
      if Number.le m.size m.regs.sp then .done m []
      else if m.Holds m.regs.sp (m.size - m.regs.sp) then
        .done m (slice m.memory m.regs.sp (m.regs.sp + (m.size - m.regs.sp)))
      else .fault m (.outOfRange m.regs.sp (m.size - m.regs.sp) m.size) := by
  rw [readStack, h.stackBounds_eq]
  simp only [Call.andThen, Call.done, Call.after, List.nil_append]
  rw [checked_checkRange, h.read_eq]
  rfl

/-- Bytes that fit from the whole part of their address on are written there. -/
lemma write_of_truncate (h : m.Plain) {address : Number} {bytes : Bytes} {n : Int}
    (hn : address.truncate = some n) (h0 : 0 ≤ n) (hfit : n + bytes.length ≤ m.size) :
    m.write address bytes = .done { m with memory := overwrite m.memory n.toNat bytes } () := by
  obtain ⟨program, memory, regs, steps, lastString, plans⟩ := m
  obtain rfl : plans = {} := h
  simp only [Machine.write, overridable, hn]
  exact if_pos ⟨h0, hfit⟩

/-- Bytes that have no room are a fault, and nothing is written. -/
lemma write_of_not_hasRoom (h : m.Plain) {address : Number} {bytes : Bytes}
    (hr : ¬ m.HasRoom address bytes.length) : m.write address bytes = .fault m .bufferBounds := by
  obtain ⟨program, memory, regs, steps, lastString, plans⟩ := m
  obtain rfl : plans = {} := h
  simp only [Machine.write, overridable]
  cases hn : address.truncate with
  | none => rfl
  | some n => exact if_neg fun hfit => hr ⟨n, hn, hfit⟩

end Plain

end Machine

end DebugWire
