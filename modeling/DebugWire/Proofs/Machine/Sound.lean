import DebugWire.Proofs.Machine.Ranges
import DebugWire.Proofs.Machine.Snapshot
import DebugWire.Proofs.Wire.Fields

set_option relaxedAutoImplicit false
set_option autoImplicit false

/-!
# Sound machines

A machine is sound if no call of it is overridden, its memory has no more bytes than can be counted,
and its registers are exact. It stays so whatever commands do to it, as long as they can be written
on the wire. What a client reads of a sound machine is what is in its memory and its registers.

## Main definitions

* `DebugWire.Machine.Sound` — a sound machine.

## Main results

* `DebugWire.Machine.Calls.sound` — a sound machine after calls that a command may make.
* `DebugWire.Machine.Sound.readStack_eq` — the stack.
* `DebugWire.Machine.Plain.of_readRange`, `DebugWire.Machine.Sound.of_readStack` — what is read.
-/

namespace DebugWire

namespace Machine

/-- A machine is *sound*: no call of it is overridden, its memory can be counted, and its registers
are exact. -/
structure Sound (m : Machine) : Prop where
  /-- No call is overridden. -/
  plain : m.Plain
  /-- Its memory can be counted. -/
  size : m.size ≤ Number.exactLimit
  /-- Its registers are exact. -/
  regs : m.regs.Exact

variable {m : Machine}

/-- A machine at its start is sound without overrides, if its memory can be counted.

**Proof sketch.** All registers are zero but the stack pointers, which are the size of memory and so
exact. -/
lemma sound_initial (program : List (Number × Op)) {size : ℕ} (h : size ≤ Number.exactLimit) :
    (initial program size {}).Sound where
  plain := rfl
  size := by
    rw [Machine.size, initial, List.length_replicate]
    exact h
  regs := by
    have h0 : Number.Exact 0 := Number.exact_natCast (Nat.zero_le _)
    exact {
      pc := h0
      acc := h0
      sp := Number.exact_natCast h
      fp := Number.exact_natCast h
      dataRegs := ⟨rfl, fun x hx => List.eq_of_mem_replicate (n := 4) hx ▸ h0⟩
      addrRegs := ⟨rfl, fun x hx => List.eq_of_mem_replicate (n := 2) hx ▸ h0⟩ }

/-! ## Calls -/

/-- A sound machine with its next instruction one further is sound. -/
lemma Sound.advance (h : m.Sound) : m.advance.Sound :=
  ⟨h.plain, h.size, { h.regs with pc := h.regs.pc.add_one }⟩

/-- A sound machine with an exact accumulator is sound. -/
lemma Sound.withAcc (h : m.Sound) {acc : Number} (ha : acc.Exact) :
    Sound { m with regs := { m.regs with acc := acc } } :=
  ⟨h.plain, h.size, { h.regs with acc := ha }⟩

/-- The accumulator is put on the stack inside of memory, or not at all. -/
lemma size_pushAcc (m : Machine) : m.pushAcc.size = m.size := by
  unfold Machine.size Machine.pushAcc
  dsimp only
  split
  · split_ifs
    · exact List.length_set
    · rfl
  · rfl

/-- A sound machine with its accumulator put on the stack is sound. -/
lemma Sound.pushAcc (h : m.Sound) : m.pushAcc.Sound :=
  ⟨h.plain, le_of_eq_of_le (size_pushAcc m) h.size, { h.regs with sp := h.regs.sp.sub_one }⟩

/-- One more than the accumulator, without its higher bits, is exact. -/
lemma exact_increment (acc : Number) : (increment acc).Exact := by
  have hb := (acc + 1).lowByte.toNat_lt
  exact Number.exact_natCast (by simp only [Number.exactLimit]; omega)

/-- A sound machine that has done the work of an operation is sound. -/
lemma Sound.perform (h : m.Sound) (op : Op) : (m.perform op).machine.Sound := by
  cases op with
  | nop | print channel text => exact h.advance
  | inc => exact (h.withAcc (exact_increment _)).advance
  | push => exact h.pushAcc.advance
  | readKey | readString | halt | crash reason | fail message => exact h

/-- A sound machine that has executed one instruction is sound. -/
lemma Sound.execute (h : m.Sound) : m.execute.machine.Sound := by
  have hs : Sound { m with steps := m.steps + 1 } := ⟨h.plain, h.size, h.regs⟩
  unfold Machine.execute
  dsimp only
  split
  · exact hs.perform _
  · exact hs

/-- A natural number below 256 is that of a byte. -/
lemma exists_byte {n : ℕ} (h : n < 256) : ∃ b : UInt8, (n : Number) = (b.toNat : Number) :=
  ⟨UInt8.ofNat n, by rw [UInt8.toNat_ofNat', Nat.mod_eq_of_lt h]⟩

/-- A key that can be written is a byte.

**Proof sketch.** A command that can be written has a key of one character below 256, and that is
the only unit of the text. -/
lemma exists_byte_keyCode {key : String} (h : (Command.inputKey key).Encodes) :
    ∃ b : UInt8, keyCode key = (b.toNat : Number) := by
  obtain ⟨bytes, h⟩ := h
  obtain ⟨body, hbody, -⟩ := exists_of_map_eq_ok h
  obtain ⟨b, hb, -⟩ := exists_of_map_eq_ok hbody
  obtain ⟨hkey, rfl⟩ := Command.exists_of_encodeKey hb
  have hlt := Key.toNat_lt_of_isKey hkey
  have hunits : Units.ofText (Key.ofChar (Char.ofNat b.toNat)) = [(Char.ofNat b.toNat).toNat] := by
    rw [Units.ofText, Key.ofChar, String.toList_ofList, List.flatMap_singleton, Units.ofChar]
    exact if_pos (by omega)
  rw [keyCode, hunits]
  exact exists_byte hlt

/-- A key that can be written gives an exact number. -/
lemma exact_keyCode {key : String} (h : (Command.inputKey key).Encodes) : (keyCode key).Exact := by
  obtain ⟨b, hb⟩ := exists_byte_keyCode h
  have hlt := b.toNat_lt
  rw [hb]
  exact Number.exact_natCast (by simp only [Number.exactLimit]; omega)

/-- A list of exact numbers with one of them written is one of as many. -/
lemma exact_set {xs : List Number} {n : ℕ} (h : xs.length = n ∧ ∀ x ∈ xs, x.Exact) (i : ℕ)
    {value : Number}
    (hv : value.Exact) : (xs.set i value).length = n ∧ ∀ x ∈ xs.set i value, x.Exact := by
  refine ⟨List.length_set.trans h.1, fun x hx => ?_⟩
  rcases List.mem_or_eq_of_mem_set hx with hx | rfl
  · exact h.2 x hx
  · exact hv

/-- Exact registers with an exact number written into one of them are exact.

**Proof sketch.** One case for each register: the number is the one new field, or the one new entry
of a list. -/
lemma exact_regs_set {s : Snapshot} (h : s.Exact) (r : Register) {value : Number}
    (hv : value.Exact) :
    (s.set r value).Exact := by
  cases r with
  | acc => exact { h with acc := hv }
  | d0 => exact { h with dataRegs := exact_set h.dataRegs 0 hv }
  | d1 => exact { h with dataRegs := exact_set h.dataRegs 1 hv }
  | d2 => exact { h with dataRegs := exact_set h.dataRegs 2 hv }
  | d3 => exact { h with dataRegs := exact_set h.dataRegs 3 hv }
  | a0 => exact { h with addrRegs := exact_set h.addrRegs 0 hv }
  | a1 => exact { h with addrRegs := exact_set h.addrRegs 1 hv }
  | pc => exact { h with pc := hv }
  | sp => exact { h with sp := hv }
  | fp => exact { h with fp := hv }
  | overflowed => exact { h with }

/-- A register holds no value greater than binary64 holds exactly. -/
lemma limit_le_exactLimit (r : Register) : r.limit ≤ Number.exactLimit := by
  cases r <;> decide

/-- **A sound machine after calls** that a command may make is sound, if the command can be written.

**Proof sketch.** Induction on the calls. A register is set to a value within its limit, which is
exact, and a key that can be written has an exact code; the rest keeps the registers or counts them
on by one. -/
theorem Calls.sound {c : Command} {n : ℕ} {m' : Machine} (h : Calls c m n m') (hc : c.Encodes)
    (hm : m.Sound) : m'.Sound := by
  induction h with
  | none => exact hm
  | registers _ ih =>
    rw [ih.plain.registers_eq]
    exact ih
  | read address length _ ih =>
    rw [ih.plain.read_eq]
    exact ih
  | stackBounds _ ih =>
    rw [ih.plain.stackBounds_eq]
    exact ih
  | write address bytes _ ih =>
    obtain ⟨memory, hlen, he⟩ := ih.plain.write_machine address bytes
    rw [he]
    exact ⟨ih.plain, le_of_eq_of_le hlen ih.size, ih.regs⟩
  | setRegister r value hv _ ih =>
    rw [ih.plain.setRegister_eq]
    exact ⟨ih.plain, ih.size,
      exact_regs_set ih.regs r (Number.exact_of_isWithin hv (limit_le_exactLimit r))⟩
  | supplyKey key hk _ ih =>
    rw [ih.plain.supplyKey_eq]
    exact (ih.withAcc (exact_keyCode (hk ▸ hc))).advance
  | @supplyString _ m' text _ _ ih =>
    rw [ih.plain.supplyString_eq]
    have hs : Sound { m' with lastString := some text } := ⟨ih.plain, ih.size, ih.regs⟩
    exact (hs.withAcc (Number.exact_natCast (by simp only [Number.exactLimit]; omega))).advance
  | step _ _ ih =>
    rw [ih.plain.step_eq]
    exact ih.execute

/-! ## What is read -/

/-- The place of a number inside of a list is the number. -/
lemma position_natCast {n length : ℕ} (h : n ≤ length) : position (n : Number) length = n := by
  simp only [position, Number.truncate, Int.toNat_natCast]
  rw [if_neg (by omega), Nat.min_eq_left h]

/-- The bytes between two places inside of a list. -/
lemma slice_natCast {bytes : Bytes} {a b : ℕ} (ha : a ≤ bytes.length) (hb : b ≤ bytes.length) :
    slice bytes (a : Number) (b : Number) = (bytes.drop a).take (b - a) := by
  rw [slice, position_natCast ha, position_natCast hb]

/-- The bytes from one place inside of a list on, up to another. -/
lemma slice_natCast_sub {bytes : Bytes} {a b : ℕ} (hab : a ≤ b) (hb : b ≤ bytes.length)
    (he : b ≤ Number.exactLimit) :
    slice bytes (a : Number) ((a : Number) + ((b - a : ℕ) : Number)) =
      (bytes.drop a).take (b - a) := by
  rw [Number.natCast_add_natCast (by omega), Nat.add_sub_cancel' hab, slice_natCast (by omega) hb]

/-- **A range of memory** that is read is inside of it, and its bytes are those there.

**Proof sketch.** Of the three outcomes of reading a range only the last has a result. There the
range is not inverted and is held, and numbers this small are subtracted exactly. -/
theorem Plain.of_readRange {a b : ℕ} (h : m.Plain) (hb : b ≤ Number.exactLimit) {bytes : Bytes}
    (hr : (m.readRange (a : Number) (b : Number)).result = .ok bytes) :
    a ≤ b ∧ b ≤ m.size ∧ bytes = (m.memory.drop a).take (b - a) := by
  rw [h.readRange_eq_ite, Number.lt_natCast] at hr
  split_ifs at hr with hlt hin
  · cases hr
  · have hab : a ≤ b := Nat.not_lt.1 fun hba => hlt (decide_eq_true hba)
    rw [Number.natCast_sub_natCast hab hb] at hin hr
    have hsize : b ≤ m.size := Nat.add_sub_cancel' hab ▸ (holds_natCast (by omega)).1 hin
    rw [slice_natCast_sub hab hsize hb] at hr
    exact ⟨hab, hsize, (Except.ok.inj hr).symm⟩
  · cases hr

/-- **The stack** is read from the stack pointer on, unless that is negative.

**Proof sketch.** A negative pointer is refused. Behind the end of memory the stack is empty;
otherwise its range lies in memory and is everything from the pointer on. -/
theorem Sound.readStack_eq (h : m.Sound) {sp : ℤ} (hsp : m.regs.sp = .whole sp) :
    m.readStack =
      if sp < 0 then
        .fault m (.outOfRange m.regs.sp (m.size - m.regs.sp) m.size)
      else .done m (m.memory.drop sp.toNat) := by
  have hmemory : m.memory.length = m.size := rfl
  rw [h.plain.readStack_eq_ite, hsp, Number.le_whole]
  simp only [decide_eq_true_eq]
  by_cases hneg : sp < 0
  · rw [if_neg (by omega), if_neg (not_holds_of_neg hneg _), if_pos hneg]
  · obtain ⟨a, rfl⟩ := Int.eq_ofNat_of_zero_le (Int.not_lt.1 hneg)
    rw [if_neg hneg, Int.toNat_natCast]
    by_cases hle : m.size ≤ a
    · rw [if_pos (by omega), List.drop_eq_nil_of_le (by omega)]
    · have hsub : (m.size : Number) - Number.whole a = ((m.size - a : ℕ) : Number) :=
        Number.natCast_sub_natCast (by omega) h.size
      have hslice : slice m.memory (a : Number) ((a : Number) + ((m.size - a : ℕ) : Number)) =
          (m.memory.drop a).take (m.size - a) := slice_natCast_sub (by omega) (Nat.le_refl _) h.size
      have hsize := h.size
      have hin : m.Holds (.whole a) ((m.size - a : ℕ) : Number) :=
        (holds_natCast (by omega)).2 (by omega)
      rw [if_neg (by omega), hsub, if_pos hin]
      refine congrArg (Call.done m) (hslice.trans (List.take_of_length_le ?_))
      rw [List.length_drop]
      omega

/-- **The stack** that is read is what is in memory from the stack pointer on. -/
theorem Sound.of_readStack (h : m.Sound) {bytes : Bytes} (hr : m.readStack.result = .ok bytes) :
    ∃ sp : ℕ, m.regs.sp = (sp : Number) ∧ bytes = m.memory.drop sp := by
  obtain ⟨z, -, hz⟩ := h.regs.sp
  rw [h.readStack_eq hz] at hr
  split_ifs at hr with hneg
  · cases hr
  · refine ⟨z.toNat, ?_, (Except.ok.inj hr).symm⟩
    rw [hz, Int.toNat_of_nonneg (Int.not_lt.1 hneg)]

end Machine

end DebugWire
