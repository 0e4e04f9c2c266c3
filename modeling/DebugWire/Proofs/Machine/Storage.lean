import DebugWire.Proofs.Machine.Memory

set_option relaxedAutoImplicit false
set_option autoImplicit false

/-!
# Memory as an array

The memory of a machine behaves like an array of bytes into which bytes are stored at places, one
store after the other. An instruction stores one byte if it puts the accumulator on the stack and
there is room for it, and it stores nothing otherwise. The accumulator is a byte, whatever commands
do to the machine.

## Main definitions

* `DebugWire.Store` — bytes that are stored at a place.
* `DebugWire.Store.written` — an array after stores.
* `DebugWire.Store.segment` — the bytes of an array from a place on.
* `DebugWire.Machine.store?` — what the next instruction stores.
* `DebugWire.Machine.Mirrors` — a machine whose memory is an array.

## Main results

* `DebugWire.Store.overwrite_segment` — a store into memory is one into the array.
* `DebugWire.Machine.memory_execute` — memory after an instruction.
* `DebugWire.Machine.Calls.byteAcc` — the accumulator is a byte.
-/

namespace DebugWire

/-! ## Arrays -/

/-- Bytes that are stored at a place. -/
structure Store where
  /-- The place of the first byte. -/
  place : ℕ
  /-- The bytes. -/
  bytes : Bytes
  deriving DecidableEq

namespace Store

/-- The array with bytes stored over it: they are at their places, and elsewhere it is as before. -/
def onto (s : Store) (array : ℕ → UInt8) (i : ℕ) : UInt8 :=
  if s.place ≤ i then s.bytes.getD (i - s.place) (array i) else array i

/-- An array after stores, one after the other. -/
def written (array : ℕ → UInt8) (stores : List Store) : ℕ → UInt8 :=
  stores.foldl (fun array s => s.onto array) array

/-- So many bytes of an array, from a place on. -/
def segment (array : ℕ → UInt8) (first count : ℕ) : Bytes := (List.range' first count).map array

variable {array : ℕ → UInt8} {size first count : ℕ}

/-- A segment has as many bytes as are counted. -/
@[simp]
lemma length_segment : (segment array first count).length = count := by
  rw [segment, List.length_map, List.length_range']

/-- The bytes of an array, by their places: those of the segment are the array's from its first
place on, and behind its length there are none. -/
lemma getElem?_segment (i : ℕ) :
    (segment array first count)[i]? = if i < count then some (array (first + i)) else none := by
  rw [segment, List.getElem?_map]
  split_ifs with h
  · rw [List.getElem?_range' h, Nat.one_mul]
    rfl
  · rw [List.getElem?_eq_none (by rwa [List.length_range', ← Nat.not_lt])]
    rfl

/-- An array of zeros is the memory of a machine at its start. -/
lemma replicate_eq_segment (size : ℕ) : List.replicate size 0 = segment (fun _ => 0) 0 size := by
  rw [segment, List.map_const', List.length_range']

/-- Some of the bytes of an array, taken out of all of them, are the segment there. -/
lemma take_drop_segment (h : first + count ≤ size) :
    ((segment array 0 size).drop first).take count = segment array first count := by
  refine List.ext_getElem? fun i => ?_
  rw [List.getElem?_take, List.getElem?_drop, getElem?_segment, getElem?_segment, Nat.zero_add]
  split_ifs <;> first | rfl | omega

/-- **A store into memory** is one into the array.

**Proof sketch.** Byte by byte: in front of the place and behind the bytes the array is as before,
and in between it has the bytes. -/
theorem overwrite_segment {s : Store} (h : s.place + s.bytes.length ≤ size) :
    Machine.overwrite (segment array 0 size) s.place s.bytes = segment (s.onto array) 0 size := by
  have hplace : ((segment array 0 size).take s.place).length = s.place := by
    rw [List.length_take, length_segment]
    omega
  refine List.ext_getElem? fun i => ?_
  rw [getElem?_segment, Nat.zero_add, Machine.overwrite, List.append_assoc, List.getElem?_append,
    hplace, onto]
  by_cases hbefore : i < s.place
  · rw [if_pos hbefore, List.getElem?_take, if_pos hbefore, getElem?_segment, Nat.zero_add,
      if_neg (show ¬ s.place ≤ i by omega)]
  · rw [if_neg hbefore, if_pos (show s.place ≤ i by omega), List.getElem?_append]
    by_cases hin : i - s.place < s.bytes.length
    · rw [if_pos hin, if_pos (show i < size by omega), List.getD, List.getElem?_eq_getElem hin,
        Option.getD_some]
    · rw [if_neg hin, List.getElem?_drop, getElem?_segment, List.getD,
        List.getElem?_eq_none (by omega),
        Option.getD_none, Nat.zero_add,
          show s.place + s.bytes.length + (i - s.place - s.bytes.length) = i by omega]

end Store

namespace Machine

variable {m : Machine}

/-! ## Instructions -/

/-- What the next instruction stores: the accumulator below the stack pointer, if it puts it on the
stack and that is a place in memory. -/
def store? (m : Machine) : Option Store :=
  if m.opAt? m.regs.pc = some .push then
    match m.regs.sp with
    | .whole sp =>
      if 1 ≤ sp ∧ sp ≤ m.size then some ⟨(sp - 1).toNat, [m.regs.acc.lowByte]⟩ else none
    | _ => none
  else none

/-- The memory after a store, if there is one. -/
def stored (memory : Bytes) : Option Store → Bytes
  | some s => overwrite memory s.place s.bytes
  | none => memory

/-- One byte is stored in its place as a list of one byte is written to it. -/
lemma set_eq_overwrite {memory : Bytes} {p : ℕ} (b : UInt8) (h : p < memory.length) :
    memory.set p b = overwrite memory p [b] := by
  rw [overwrite, List.set_eq_take_append_cons_drop, if_pos h, List.append_assoc]
  rfl

/-- One less than an exact number, or, beyond the limit, a number that is negative as well. -/
lemma exists_sub_one {z : ℤ} (h : z.natAbs ≤ Number.exactLimit) :
    ∃ y : ℤ, Number.whole z - 1 = .whole y ∧ (y = z - 1 ∨ y < 0 ∧ z < 0) := by
  by_cases hlim : (z - 1).natAbs ≤ Number.exactLimit
  · exact ⟨z - 1, Number.whole_sub_whole hlim, .inl rfl⟩
  · have hneg : 0 < Number.exactLimit := by decide
    obtain rfl : z = -(Number.exactLimit : ℤ) := by omega
    exact ⟨-(Number.exactLimit : ℤ), by decide +kernel, .inr ⟨by omega, by omega⟩⟩

/-- Putting the accumulator on the stack stores its low byte right below the stack pointer, if that
is inside of memory. -/
lemma memory_pushAcc {sp : ℤ} (hsp : m.regs.sp = .whole sp) (h : sp.natAbs ≤ Number.exactLimit) :
    m.pushAcc.memory =
      if 1 ≤ sp ∧ sp ≤ m.size then overwrite m.memory (sp - 1).toNat [m.regs.acc.lowByte]
      else m.memory := by
  obtain ⟨y, hy, hcases⟩ := exists_sub_one h
  have hsize : m.memory.length = m.size := rfl
  simp only [pushAcc, hsp, hy]
  by_cases hin : 1 ≤ sp ∧ sp ≤ m.size
  · obtain rfl : y = sp - 1 := by omega
    rw [if_pos (by omega), if_pos hin, set_eq_overwrite _ (by omega)]
  · rw [if_neg (by omega), if_neg hin]

/-- **Memory after an instruction** is that before with what the instruction stores.

**Proof sketch.** Only pushing stores something. It does if the stack pointer is behind the first
place and not behind the end of memory. -/
theorem memory_execute (h : m.regs.sp.Exact) :
    m.execute.machine.memory = stored m.memory m.store? := by
  obtain ⟨sp, hlim, hsp⟩ := h
  have hop : opAt? { m with steps := m.steps + 1 } m.regs.pc = m.opAt? m.regs.pc := rfl
  simp only [execute, store?, hop]
  cases m.opAt? m.regs.pc with
  | none => rfl
  | some op =>
    cases op with
    | push =>
      simp only [hsp, if_true]
      refine (memory_pushAcc (m := { m with steps := m.steps + 1 }) hsp hlim).trans ?_
      by_cases hin : 1 ≤ sp ∧ sp ≤ m.size
      · rw [if_pos hin]
        exact if_pos hin
      · rw [if_neg hin]
        exact if_neg hin
    | nop | inc | print channel text | readKey | readString | halt | crash reason | fail message =>
      rfl

/-! ## The accumulator -/

/-- The accumulator is a *byte*. -/
def ByteAcc (m : Machine) : Prop := ∃ b : UInt8, m.regs.acc = (b.toNat : Number)

/-- Writing a value that fits into its register leaves a byte in the accumulator.

**Proof sketch.** Only writing the accumulator matters. A value within its limit is a natural number
up to 255. -/
lemma ByteAcc.set (h : m.ByteAcc) {r : Register} {value : Number}
    (hv : value.isWithin r.limit = true) :
    ByteAcc { m with regs := m.regs.set r value } := by
  cases r with
  | acc =>
    cases value with
    | whole z =>
      have hz := (Number.isWithin_whole _ z).1 hv
      have hlimit : Register.acc.limit = 255 := rfl
      obtain ⟨n, rfl⟩ := Int.eq_ofNat_of_zero_le hz.1
      exact exists_byte (n := n) (by omega)
    | fraction | infinite | nan => cases hv
  | d0 | d1 | d2 | d3 | a0 | a1 | pc | sp | fp | overflowed => exact h

/-- Executing one instruction leaves a byte in the accumulator. -/
lemma ByteAcc.execute (h : m.ByteAcc) : m.execute.machine.ByteAcc := by
  simp only [Machine.execute]
  split
  case h_1 op _ =>
    cases op with
    | inc => exact ⟨_, rfl⟩
    | push | nop | print channel text | readKey | readString | halt | crash reason | fail message =>
      exact h
  case h_2 => exact h

/-- **The accumulator is a byte** after calls that a command may make, if the command can be
written.

**Proof sketch.** Induction on the calls. The accumulator is changed by setting it to a value within
its limit, by a key, whose code is a byte, by a text, whose size is cut to a byte, and by an
instruction. -/
theorem Calls.byteAcc {c : Command} {n : ℕ} {m' : Machine} (h : Calls c m n m') (hc : c.Encodes)
    (hm : m.Plain) (ha : m.ByteAcc) : m'.ByteAcc := by
  induction h with
  | none => exact ha
  | registers hcalls ih =>
    rw [(hcalls.plain hm).1.registers_eq]
    exact ih
  | read address length hcalls ih =>
    rw [(hcalls.plain hm).1.read_eq]
    exact ih
  | stackBounds hcalls ih =>
    rw [(hcalls.plain hm).1.stackBounds_eq]
    exact ih
  | write address bytes hcalls ih =>
    obtain ⟨memory, -, he⟩ := (hcalls.plain hm).1.write_machine address bytes
    rw [he]
    exact ih
  | setRegister r value hv hcalls ih =>
    rw [(hcalls.plain hm).1.setRegister_eq]
    exact ih.set hv
  | supplyKey key hk hcalls ih =>
    rw [(hcalls.plain hm).1.supplyKey_eq]
    exact exists_byte_keyCode (hk ▸ hc)
  | supplyString text _ hcalls ih =>
    rw [(hcalls.plain hm).1.supplyString_eq]
    exact exists_byte (Nat.lt_of_le_of_lt (Nat.min_le_right _ _) (by decide))
  | step _ hcalls ih =>
    rw [(hcalls.plain hm).1.step_eq]
    exact ih.execute

/-! ## Machines -/

/-- The machine *mirrors* an array: its memory are the bytes of the array, it is sound, and its
accumulator is a byte. -/
structure Mirrors (m : Machine) (size : ℕ) (array : ℕ → UInt8) : Prop where
  /-- The machine is sound. -/
  sound : m.Sound
  /-- The accumulator is a byte. -/
  byteAcc : m.ByteAcc
  /-- Its memory are the bytes of the array. -/
  memory : m.memory = Store.segment array 0 size

/-- A machine at its start mirrors an array of zeros. -/
lemma mirrors_initial (program : List (Number × Op)) {size : ℕ} (h : size ≤ Number.exactLimit) :
    (initial program size {}).Mirrors size fun _ => 0 :=
  ⟨sound_initial program h, ⟨0, rfl⟩, Store.replicate_eq_segment size⟩

/-- The size of its memory is the size of the array that it mirrors. -/
lemma Mirrors.size_eq {size : ℕ} {array : ℕ → UInt8} (h : m.Mirrors size array) :
    m.size = size := by
  rw [Machine.size, h.memory, Store.length_segment]

end Machine

end DebugWire
