import DebugWire.Proofs.Machine.Sound

set_option relaxedAutoImplicit false
set_option autoImplicit false

/-!
# Memory that is written and read

The memory of a machine keeps its size, whatever commands do to it. A plain machine writes and reads
each range that is inside of it, and reads back what it has written.

## Main results

* `DebugWire.Machine.Calls.size_eq` — the size of memory after calls that a command may make.
* `DebugWire.Machine.Plain.writeAt_eq`, `DebugWire.Machine.Plain.readRange_eq` — checked access
  inside of memory.
* `DebugWire.Machine.slice_overwrite`, `DebugWire.Machine.overwrite_overwrite` — bytes that were
  written.
-/

namespace DebugWire.Machine

variable {m m' : Machine} {a b : ℕ}

/-! ## Size -/

/-- Executing one instruction leaves the size of memory: instructions store bytes in place. -/
lemma size_execute (m : Machine) : m.execute.machine.size = m.size := by
  unfold execute
  dsimp only
  split
  case h_1 op _ =>
    cases op with
    | push => exact size_pushAcc _
    | _ => rfl
  case h_2 => rfl

/-- **The size of memory** is what it was, after calls that a command may make.

**Proof sketch.** Induction on the calls. Only writing bytes and executing an instruction touch
memory, and neither changes its size. -/
theorem Calls.size_eq {c : Command} {n : ℕ} (h : Calls c m n m') (hm : m.Plain) :
    m'.size = m.size := by
  induction h with
  | none => rfl
  | registers hc ih =>
    rw [(hc.plain hm).1.registers_eq]
    exact ih
  | read address length hc ih =>
    rw [(hc.plain hm).1.read_eq]
    exact ih
  | stackBounds hc ih =>
    rw [(hc.plain hm).1.stackBounds_eq]
    exact ih
  | write address bytes hc ih =>
    obtain ⟨memory, hlen, he⟩ := (hc.plain hm).1.write_machine address bytes
    rw [he]
    exact hlen.trans ih
  | setRegister r value _ hc ih =>
    rw [(hc.plain hm).1.setRegister_eq]
    exact ih
  | supplyKey key _ hc ih =>
    rw [(hc.plain hm).1.supplyKey_eq]
    exact ih
  | supplyString text _ hc ih =>
    rw [(hc.plain hm).1.supplyString_eq]
    exact ih
  | step _ hc ih =>
    rw [(hc.plain hm).1.step_eq, size_execute]
    exact ih

/-! ## Access -/

/-- **Bytes that fit** are written where they should be, and nowhere else. -/
theorem Plain.writeAt_eq (h : m.Plain) (hm : m.size ≤ Number.exactLimit) {bytes : Bytes}
    (hfit : a + bytes.length ≤ m.size) :
    m.writeAt (a : Number) bytes = .done { m with memory := overwrite m.memory a bytes } () := by
  have htruncate : Number.truncate (a : Number) = some (a : Int) := rfl
  rw [writeAt, checked_checkRange, if_pos ((holds_natCast (by omega)).2 hfit)]
  exact h.write_of_truncate htruncate (Int.natCast_nonneg a) (by exact_mod_cast hfit)

/-- **A range inside of memory** is read as it is. -/
theorem Plain.readRange_eq (h : m.Plain) (hm : m.size ≤ Number.exactLimit) (hab : a ≤ b)
    (hb : b ≤ m.size) :
    m.readRange (a : Number) (b : Number) = .done m ((m.memory.drop a).take (b - a)) := by
  have hexact : b ≤ Number.exactLimit := Nat.le_trans hb hm
  have hholds : m.Holds (a : Number) ((b - a : ℕ) : Number) :=
    (holds_natCast (by omega)).2 (by omega)
  rw [h.readRange_eq_ite, Number.lt_natCast, if_neg (by rw [decide_eq_true_eq]; omega),
    Number.natCast_sub_natCast hab hexact, if_pos hholds, slice_natCast_sub hab hb hexact]

/-! ## What was written -/

/-- Bytes that were written are read back, from the place to which they were written. -/
theorem slice_overwrite {memory bytes : Bytes} (h : a + bytes.length ≤ memory.length) :
    ((overwrite memory a bytes).drop a).take bytes.length = bytes := by
  have hlen : (memory.take a).length = a := by
    rw [List.length_take]
    omega
  rw [overwrite, List.append_assoc, List.drop_left' hlen, List.take_left]

/-- Writing bytes, and others right behind them, writes both.

**Proof sketch.** The second bytes are written right behind the end of the first, so what is in
front of them is the beginning of memory and the first bytes. What is left behind both is the same.
-/
theorem overwrite_overwrite {memory bytes : Bytes} (h : a + bytes.length ≤ memory.length)
    (bytes' : Bytes) :
    overwrite (overwrite memory a bytes) (a + bytes.length) bytes' =
      overwrite memory a (bytes ++ bytes') := by
  have hlen : (memory.take a ++ bytes).length = a + bytes.length := by
    rw [List.length_append, List.length_take]
    omega
  simp only [overwrite]
  rw [List.take_left' hlen, List.drop_append, hlen, List.drop_eq_nil_of_le (by omega),
    List.drop_drop]
  simp only [List.append_assoc, List.nil_append, List.length_append]
  congr 4
  omega

/-- Writing no bytes changes nothing, at whatever place. -/
lemma overwrite_nil (memory : Bytes) (a : ℕ) : overwrite memory a [] = memory := by
  rw [overwrite, List.append_nil, List.length_nil, Nat.add_zero, List.take_append_drop]

/-- Writing the first bytes, and then the others behind them, writes all. -/
lemma overwrite_take_drop {memory bytes : Bytes} (h : a + bytes.length ≤ memory.length) (k : ℕ) :
    overwrite (overwrite memory a (bytes.take k)) (a + k) (bytes.drop k) =
      overwrite memory a bytes := by
  by_cases hk : k ≤ bytes.length
  · have hlen : (bytes.take k).length = k := List.length_take_of_le hk
    have hfits : a + (bytes.take k).length ≤ memory.length := by omega
    have htwice := overwrite_overwrite hfits (bytes.drop k)
    rwa [hlen, List.take_append_drop] at htwice
  · rw [List.drop_eq_nil_of_le (by omega), List.take_of_length_le (by omega), overwrite_nil]

end DebugWire.Machine
