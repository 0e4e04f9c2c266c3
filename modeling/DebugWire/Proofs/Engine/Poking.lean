import DebugWire.Proofs.Engine.Queries
import DebugWire.Proofs.Machine.Memory
import DebugWire.Proofs.Script.Building

set_option relaxedAutoImplicit false
set_option autoImplicit false

/-!
# Memory that a client writes

A client writes bytes with several commands, at most 255 bytes with each. An engine that takes
commands and whose machine is plain does with all of them what one write would do: the bytes are in
memory where they should be, and nothing else has changed. When it is asked for them, it answers
with these bytes.

## Main results

* `DebugWire.Script.encodes_of_mem_pokes` — the commands that write bytes can be written.
* `DebugWire.Engine.after_pokes` — an engine behind them.
* `DebugWire.Engine.answer?_after_pokes` — what it answers when it is asked for the bytes.
-/

namespace DebugWire

variable {a offset : ℕ} {bytes : Bytes}

/-! ## Commands -/

/-- Bytes for an address of sixteen bits can be written, if one frame takes them. -/
lemma Command.encodes_setMemory {n : ℕ} (h : n ≤ 0xffff) (hlen : bytes.length ≤ Chunk.maxSize) :
    (setMemory (n : Number) bytes).Encodes := by
  have hbody : encodeBody (setMemory (n : Number) bytes) =
      .ok (bytes16 n ++ UInt8.ofNat bytes.length :: bytes) := by
    rw [encodeBody, encodeAddress_natCast _ h]
    exact if_neg (by omega)
  exact ⟨_, congrArg (Except.map _) hbody⟩

/-- A range between addresses of sixteen bits can be asked for. -/
lemma Command.encodes_requestMemory {n k : ℕ} (hn : n ≤ 0xffff) (hk : k ≤ 0xffff) :
    (requestMemory (n : Number) (k : Number)).Encodes := by
  have hbody :
      encodeBody (requestMemory (n : Number) (k : Number)) = .ok (bytes16 n ++ bytes16 k) := by
    rw [encodeBody, encodeAddress_natCast _ hn, encodeAddress_natCast _ hk]
    rfl
  exact ⟨_, congrArg (Except.map _) hbody⟩

namespace Script

/-- What is left of bytes that fit behind a first part of them fits behind that. -/
lemma fits_drop {limit : ℕ} (h : a + offset + bytes.length ≤ limit) :
    bytes.drop Chunk.maxSize = [] ∨
      a + (offset + Chunk.maxSize) + (bytes.drop Chunk.maxSize).length ≤ limit := by
  rw [List.drop_eq_nil_iff, List.length_drop]
  omega

/-- The commands that write bytes which end below the last address can be written.

**Proof sketch.** Induction on the pieces. The first one has at most 255 bytes and begins below the
last address, and so does what is left of the bytes. -/
lemma encodes_of_mem_pokesFrom (h : bytes = [] ∨ a + offset + bytes.length ≤ 0x10000) :
    ∀ c ∈ pokesFrom (a : Number) offset (Chunk.pieces bytes), c.Encodes := by
  induction bytes using Chunk.pieces.induct generalizing offset with
  | case1 bytes hnil =>
    rw [List.isEmpty_iff.1 hnil, pokesFrom_pieces_nil]
    exact fun _ hc => absurd hc List.not_mem_nil
  | case2 bytes hne ih =>
    have hne : bytes ≠ [] := by simpa using hne
    have hfit := h.resolve_left hne
    have hpos := List.length_pos_iff.2 hne
    rw [pokesFrom_pieces _ _ hne]
    refine List.forall_mem_cons.2 ⟨?_, ih (fits_drop hfit)⟩
    rw [Number.natCast_add_natCast (by simp only [Number.exactLimit]; omega)]
    exact Command.encodes_setMemory (by omega) (List.length_take_le _ _)

/-- **The commands that write bytes** which end below the last address can be written. -/
theorem encodes_of_mem_pokes (h : a + bytes.length ≤ 0x10000) :
    ∀ c ∈ pokes (a : Number) bytes, c.Encodes :=
  encodes_of_mem_pokesFrom (.inr h)

end Script

/-! ## Engines -/

namespace Engine

variable {e : Engine}

/-- An engine with other bytes in its memory. -/
def withMemory (e : Engine) (memory : Bytes) : Engine :=
  { e with machine := { e.machine with memory := memory } }

/-- Only the last of two memories is there, and nothing of the first is left. -/
lemma withMemory_withMemory (e : Engine) (memory memory' : Bytes) :
    (e.withMemory memory).withMemory memory' = e.withMemory memory' := rfl

/-- An engine that has come to its end stays there. -/
lemma after_of_terminated (h : e.terminated = true) (cs : List Command) : e.after cs = e := by
  induction cs with
  | nil => rfl
  | cons c cs ih =>
    have hsame : (e.handle c).1 = e := by rw [handle, if_pos h]
    rw [after_cons, hsame, ih]

/-- An engine that takes commands behind some took them before. -/
lemma terminated_of_after {cs : List Command} (h : (e.after cs).terminated = false) :
    e.terminated = false := by
  refine Bool.eq_false_iff.2 fun ht => ?_
  rw [after_of_terminated ht, ht] at h
  cases h

/-- Commands leave a plain machine plain, and the size of its memory. -/
lemma machine_after (hp : e.machine.Plain) (cs : List Command) :
    (e.after cs).machine.Plain ∧ (e.after cs).machine.size = e.machine.size := by
  induction cs generalizing e with
  | nil => exact ⟨hp, rfl⟩
  | cons c cs ih =>
    obtain ⟨n, hcalls⟩ := calls_handle e c
    obtain ⟨hplain, hsize⟩ := ih (hcalls.plain hp).1
    exact ⟨hplain, hsize.trans (hcalls.size_eq hp)⟩

/-- An engine is told to write bytes that fit into memory. -/
lemma handle_setMemory (he : e.terminated = false) (hp : e.machine.Plain)
    (hm : e.machine.size ≤ Number.exactLimit) (hfit : a + bytes.length ≤ e.machine.size) :
    (e.handle (.setMemory (a : Number) bytes)).1 =
      e.withMemory (Machine.overwrite e.machine.memory a bytes) := by
  simp only [handle, he, Bool.false_eq_true, if_false, handleLive, apply,
    hp.writeAt_eq hm hfit, took, Machine.Call.done]
  rfl

/-- An engine behind the commands that write what is left of bytes.

**Proof sketch.** Induction on the pieces. The first store overwrites its bytes and keeps the size
of the memory, and overwriting with a piece and then with the rest is overwriting with the whole. -/
lemma after_pokesFrom (he : e.terminated = false) (hp : e.machine.Plain)
    (hm : e.machine.size ≤ Number.exactLimit)
    (h : bytes = [] ∨ a + offset + bytes.length ≤ e.machine.size) :
    e.after (Script.pokesFrom (a : Number) offset (Chunk.pieces bytes)) =
      e.withMemory (Machine.overwrite e.machine.memory (a + offset) bytes) := by
  induction bytes using Chunk.pieces.induct generalizing e offset with
  | case1 bytes hnil =>
    rw [List.isEmpty_iff.1 hnil, Script.pokesFrom_pieces_nil, Machine.overwrite_nil]
    rfl
  | case2 bytes hne ih =>
    have hne : bytes ≠ [] := by simpa using hne
    have hfit := h.resolve_left hne
    have htake : a + offset + (bytes.take Chunk.maxSize).length ≤ e.machine.size := by
      rw [List.length_take]
      omega
    have hsize : (e.withMemory (Machine.overwrite e.machine.memory (a + offset)
        (bytes.take Chunk.maxSize))).machine.size = e.machine.size :=
          Machine.Plain.length_overwrite htake
    have hrest :=
      ih (e := e.withMemory
        (Machine.overwrite e.machine.memory (a + offset) (bytes.take Chunk.maxSize)))
      he hp (le_of_eq_of_le hsize hm) (hsize.symm ▸ Script.fits_drop hfit)
    rw [Script.pokesFrom_pieces _ _ hne, Number.natCast_add_natCast (by omega), after_cons,
      handle_setMemory he hp hm htake, hrest, withMemory_withMemory, ← Nat.add_assoc]
    exact congrArg e.withMemory (Machine.overwrite_take_drop hfit _)

/-- **An engine behind the commands that write bytes** has these bytes in its memory. -/
theorem after_pokes (he : e.terminated = false) (hp : e.machine.Plain)
    (hm : e.machine.size ≤ Number.exactLimit) (h : a + bytes.length ≤ e.machine.size) :
    e.after (Script.pokes (a : Number) bytes) =
      e.withMemory (Machine.overwrite e.machine.memory a bytes) :=
  after_pokesFrom he hp hm (.inr h)

/-- **An engine that is asked for bytes** right behind the commands that have written them answers
with these.

**Proof sketch.** By `after_pokes` the engine holds the bytes at their addresses, and reading the
range is taking them out again. -/
theorem answer?_after_pokes (he : e.terminated = false) (hp : e.machine.Plain)
    (hm : e.machine.size ≤ Number.exactLimit) (h : a + bytes.length ≤ e.machine.size) :
    (e.after (Script.pokes (a : Number) bytes)).answer?
      (.requestMemory (a : Number) ((a + bytes.length : ℕ) : Number)) =
        some (.memoryResult bytes) := by
  have hlen : (Machine.overwrite e.machine.memory a bytes).length = e.machine.memory.length :=
    Machine.Plain.length_overwrite h
  have hlive : (e.withMemory (Machine.overwrite e.machine.memory a bytes)).terminated = false := he
  have hread :
      (e.withMemory (Machine.overwrite e.machine.memory a bytes)).machine.readRange (a : Number)
      ((a + bytes.length : ℕ) : Number) =
        .done (e.withMemory (Machine.overwrite e.machine.memory a bytes)).machine
          (((Machine.overwrite e.machine.memory a bytes).drop a).take (a + bytes.length - a)) :=
    Machine.Plain.readRange_eq hp (le_of_eq_of_le hlen hm) (Nat.le_add_right _ _)
      (le_of_le_of_eq h hlen.symm)
  rw [after_pokes he hp hm h, answer?, hlive, if_neg Bool.false_ne_true]
  rw [hread, Nat.add_sub_cancel_left, Machine.slice_overwrite h]
  rfl

/-- It does so whatever it was told before, if it takes commands still: no command makes the memory
of a plain machine longer or shorter. -/
theorem answer?_after_append_pokes (hp : e.machine.Plain)
    (hm : e.machine.size ≤ Number.exactLimit) (h : a + bytes.length ≤ e.machine.size)
    {cs : List Command} (he : (e.after cs).terminated = false) :
    (e.after (cs ++ Script.pokes (a : Number) bytes)).answer?
      (.requestMemory (a : Number) ((a + bytes.length : ℕ) : Number)) =
        some (.memoryResult bytes) := by
  obtain ⟨hplain, hsize⟩ := machine_after hp cs
  rw [after_append]
  exact answer?_after_pokes he hplain (hsize.trans_le hm) (h.trans_eq hsize.symm)

end Engine

end DebugWire
