import DebugWire.Proofs.Engine.Storage

set_option relaxedAutoImplicit false
set_option autoImplicit false

/-!
# Registers that a client writes

The registers of a machine without overrides behave like a table that has one entry for each of
them. A client writes an entry, if the register holds the value, and with that it changes no other
entry. When it asks for the registers, it is sent a text that is read as the table.

## Main definitions

* `DebugWire.Register.capacity`, `DebugWire.Register.Holds` — the whole numbers that a register
  holds.
* `DebugWire.Snapshot.ofTable` — the registers of a table.
* `DebugWire.Engine.Dumps` — an engine that shows a table when it is asked for its registers.
* `DebugWire.Engine.lastWrite?` — the last value that a register took.

## Main results

* `DebugWire.Engine.reply_write`, `DebugWire.Engine.handle_write` — one write.
* `DebugWire.Engine.regs_writes` — any writes.
* `DebugWire.Engine.registers_act_as_table` — what writes come to in any run.
-/

namespace DebugWire

/-! ## Values -/

namespace Register

variable {r : Register} {v : ℤ}

/-- The greatest value of a register: the overflow flag has one bit, the accumulator and the data
registers have one byte, and the others two. -/
def capacity : Register → ℕ
  | overflowed => 1
  | acc | d0 | d1 | d2 | d3 => 255
  | a0 | a1 | pc | sp | fp => 65535

/-- A register *holds* the whole numbers from zero up to its capacity. -/
def Holds (r : Register) (v : ℤ) : Prop := 0 ≤ v ∧ v ≤ r.capacity

instance (r : Register) (v : ℤ) : Decidable (r.Holds v) := inferInstanceAs (Decidable (_ ∧ _))

/-- The command that writes a whole number into a register. -/
def write (r : Register) (v : ℤ) : Command := .setRegister r.name (.whole v)

/-- The limit of a register is its capacity: what the device takes is what the register has room
for. -/
lemma limit_eq_capacity (r : Register) : r.limit = r.capacity := by
  cases r <;> rfl

/-- A number is within the limit of a register exactly if the register holds it. -/
lemma isWithin_limit_iff : (Number.whole v).isWithin r.limit = true ↔ r.Holds v := by
  rw [Number.isWithin_whole, limit_eq_capacity, Holds]

end Register

/-! ## Tables -/

namespace Snapshot

/-- The registers of a table, each at its place. The overflow flag is set exactly if its entry is
one. -/
def ofTable (t : Register → Number) : Snapshot where
  pc := t .pc
  acc := t .acc
  sp := t .sp
  fp := t .fp
  dataRegs := [t .d0, t .d1, t .d2, t .d3]
  addrRegs := [t .a0, t .a1]
  overflowed := t .overflowed = 1

/-- Writing a register writes its entry in the table. -/
lemma set_ofTable (t : Register → Number) (r : Register) (value : Number) :
    (ofTable t).set r value = ofTable (Function.update t r value) := by
  cases r <;> rfl

/-- Registers of the right number are those of a table. -/
lemma exists_ofTable {s : Snapshot} (hdata : s.dataRegs.length = 4)
    (haddr : s.addrRegs.length = 2) :
    ∃ t, s = ofTable t := by
  obtain ⟨pc, acc, sp, fp, dataRegs, addrRegs, overflowed⟩ := s
  obtain ⟨d0, d1, d2, d3, rfl⟩ := List.length_eq_four.1 hdata
  obtain ⟨a0, a1, rfl⟩ := List.length_eq_two.1 haddr
  refine ⟨fun
    | .pc => pc | .acc => acc | .sp => sp | .fp => fp
    | .d0 => d0 | .d1 => d1 | .d2 => d2 | .d3 => d3 | .a0 => a0 | .a1 => a1
    | .overflowed => if overflowed then 1 else 0, ?_⟩
  cases overflowed <;> rfl

end Snapshot

namespace Engine

variable {e : Engine} {r r' : Register} {v v' : ℤ}

/-- An engine *dumps* a table: when it is asked for its registers, it lets out one text and nothing
else, and this text is read as the registers of the table. -/
def Dumps (e : Engine) (t : Register → Number) : Prop :=
  ∃ text, reply (e, .requestDump) = [.dumpResult text] ∧ Snapshot.parse text = .ok (.ofTable t)

/-- An engine with other registers in its machine. -/
def withRegs (e : Engine) (regs : Snapshot) : Engine :=
  { e with machine := { e.machine with regs := regs } }

/-- An engine on a sound machine dumps the registers of its machine. -/
lemma dumps_of_regs_eq (he : e.terminated = false) (hm : e.machine.Sound) {t : Register → Number}
    (ht : e.machine.regs = .ofTable t) : e.Dumps t := by
  refine ⟨e.machine.regs.serialize, (handle_of_apply_eq_answer he ?_).2, ?_⟩
  · rw [apply, hm.plain.registers_eq, took_done]
  · rw [Snapshot.parse_serialize hm.regs, ht]

/-! ## One write -/

/-- A value that the register holds is written into it. -/
lemma apply_write (hm : e.machine.Plain) (h : r.Holds v) :
    e.apply (r.write v) = (e.withRegs (e.machine.regs.set r (.whole v))).quiet := by
  rw [Register.write, apply, Machine.writeRegister, Register.ofName?_name]
  dsimp only
  rw [if_pos (Register.isWithin_limit_iff.2 h), hm.setRegister_eq, took_done_machine]
  rfl

/-- Any other value is refused, by the fault that names the value and the register. -/
lemma refuses_write (h : ¬ r.Holds v) : e.Refuses (r.write v) (.registerValue (.whole v) r) :=
  .value (Register.ofName?_name r) (Bool.eq_false_iff.2 fun hw =>
    h (Register.isWithin_limit_iff.1 hw))

/-- **What one write does**: a value that the register holds is there afterwards, and any other
changes nothing. -/
theorem handle_write (he : e.terminated = false) (hm : e.machine.Plain) (r : Register) (v : ℤ) :
    (e.handle (r.write v)).1 =
      if r.Holds v then e.withRegs (e.machine.regs.set r (.whole v)) else e := by
  split_ifs with h
  · exact (handle_of_apply_eq_quiet he (apply_write hm h)).1
  · exact (handle_of_refuses hm he (refuses_write h)).1

/-- **What is let out** at one write: nothing, or one message that the register does not hold the
value. -/
theorem reply_write (he : e.terminated = false) (hm : e.machine.Plain) (r : Register) (v : ℤ) :
    reply (e, r.write v) =
      if r.Holds v then [] else [.errorOutput (Fault.registerValue (.whole v) r).message] := by
  split_ifs with h
  · exact (handle_of_apply_eq_quiet he (apply_write hm h)).2
  · exact (handle_of_refuses hm he (refuses_write h)).2

/-- A value that a register holds is an exact number. -/
lemma exact_of_holds (h : r.Holds v) : Number.Exact (.whole v) :=
  Number.exact_of_isWithin (Register.isWithin_limit_iff.2 h) (Machine.limit_le_exactLimit r)

/-- A write leaves an engine that takes commands as one, and its machine sound. -/
lemma sound_handle_write (he : e.terminated = false) (hm : e.machine.Sound) (r : Register) (v : ℤ) :
    (e.handle (r.write v)).1.terminated = false ∧ (e.handle (r.write v)).1.machine.Sound := by
  rw [handle_write he hm.plain]
  split_ifs with h
  · exact ⟨he, hm.plain, hm.size, Machine.exact_regs_set hm.regs r (exact_of_holds h)⟩
  · exact ⟨he, hm⟩

/-- A write leaves in the registers the table with its entry. -/
lemma regs_handle_write (he : e.terminated = false) (hm : e.machine.Plain) {t : Register → Number}
    (ht : e.machine.regs = .ofTable t) (r : Register) (v : ℤ) :
    (e.handle (r.write v)).1.machine.regs =
      .ofTable (if r.Holds v then Function.update t r (.whole v) else t) := by
  rw [handle_write he hm]
  split_ifs with h
  · exact ht ▸ Snapshot.set_ofTable t r (.whole v)
  · exact ht

/-! ## Many writes -/

/-- The last of the values written that a register took. -/
def lastWrite? (ws : List (Register × ℤ)) (r : Register) : Option ℤ :=
  ((ws.filter fun w => w.1 = r ∧ r.Holds w.2).getLast?).map Prod.snd

/-- The table with writes: each register has the last value that it took, or the value that it had.
-/
def written (t : Register → Number) (ws : List (Register × ℤ)) (r : Register) : Number :=
  ((lastWrite? ws r).map Number.whole).getD (t r)

/-- The last write comes after the first.

**Proof sketch.** For another register the write in front is not looked at on either side. For its
own, the last of the writes behind it that fit decides, and it decides itself if there is none. -/
lemma written_cons (t : Register → Number) (r : Register) (v : ℤ) (ws : List (Register × ℤ)) :
    written t ((r, v) :: ws) =
      written (if r.Holds v then Function.update t r (.whole v) else t) ws := by
  funext q
  simp only [written, lastWrite?]
  by_cases hq : r = q
  · subst hq
    by_cases h : r.Holds v
    · rw [List.filter_cons_of_pos (by simp [h]), List.getLast?_cons, if_pos h, Function.update_self]
      cases (ws.filter fun w => w.1 = r ∧ r.Holds w.2).getLast? <;> rfl
    · rw [List.filter_cons_of_neg (by simp [h]), if_neg h]
  · have hentry : (if r.Holds v then Function.update t r (.whole v) else t) q = t q := by
      split_ifs
      · exact Function.update_of_ne (Ne.symm hq) _ _
      · rfl
    rw [List.filter_cons_of_neg (by simp [hq]), hentry]

/-- **After any writes** the registers are the table with these writes, and the engine is as good as
before.

**Proof sketch.** By induction on the writes. Each leaves the engine taking commands and the machine
sound, and its entry in the table. -/
theorem regs_writes (he : e.terminated = false) (hm : e.machine.Sound) {t : Register → Number}
    (ht : e.machine.regs = .ofTable t) (ws : List (Register × ℤ)) :
    (e.after (ws.map fun w => w.1.write w.2)).terminated = false ∧
      (e.after (ws.map fun w => w.1.write w.2)).machine.Sound ∧
      (e.after (ws.map fun w => w.1.write w.2)).machine.regs = .ofTable (written t ws) := by
  induction ws generalizing e t with
  | nil => exact ⟨he, hm, ht⟩
  | cons w ws ih =>
    obtain ⟨hlive, hsound⟩ := sound_handle_write he hm w.1 w.2
    rw [List.map_cons, after_cons, written_cons]
    exact ih hlive hsound (regs_handle_write he hm.plain ht w.1 w.2)

/-- The engine after writes to two registers is the same in either order.

**Proof sketch.** Both orders write the same two entries of a table, if the values fit, and updates
at different places commute. A value that does not fit leaves the engine, so then there is one write
to make. -/
lemma after_write_comm (he : e.terminated = false) (hm : e.machine.Sound) (h : r ≠ r') (v v' : ℤ) :
    e.after [r.write v, r'.write v'] = e.after [r'.write v', r.write v] := by
  have hset : (e.machine.regs.set r (.whole v)).set r' (.whole v') =
      (e.machine.regs.set r' (.whole v')).set r (.whole v) := by
    obtain ⟨t, ht⟩ := Snapshot.exists_ofTable hm.regs.dataRegs.1 hm.regs.addrRegs.1
    rw [ht, Snapshot.set_ofTable, Snapshot.set_ofTable, Snapshot.set_ofTable, Snapshot.set_ofTable,
      Function.update_comm h]
  obtain ⟨hlive, hsound⟩ := sound_handle_write he hm r v
  obtain ⟨hlive', hsound'⟩ := sound_handle_write he hm r' v'
  rw [after_cons, after_cons, after_cons, after_cons, handle_write hlive hsound.plain,
    handle_write hlive' hsound'.plain, handle_write he hm.plain, handle_write he hm.plain]
  split_ifs
  · exact congrArg e.withRegs hset
  all_goals rfl

/-! ## Runs -/

/-- An engine *acts as a table* of registers when a client writes them. -/
structure ActsAsTable (e : Engine) (t : Register → Number) : Prop where
  /-- The table is what is sent when the registers are asked for. -/
  dumps : e.Dumps t
  /-- A write is accepted exactly if the register holds the value. -/
  accepts_iff : ∀ (r : Register) (v : ℤ), (e.apply (r.write v)).fault = none ↔ r.Holds v
  /-- A write that is accepted lets out nothing, and changes the one entry of the table. -/
  accepted : ∀ (r : Register) (v : ℤ), r.Holds v →
    reply (e, r.write v) = [] ∧ (e.handle (r.write v)).1.Dumps (Function.update t r (.whole v))
  /-- Any other write lets out one message, and changes nothing. -/
  refused : ∀ (r : Register) (v : ℤ), ¬ r.Holds v →
    (∃ text, reply (e, r.write v) = [.errorOutput text]) ∧ (e.handle (r.write v)).1.Dumps t
  /-- After any writes each register has the last value that it took. -/
  writes : ∀ ws : List (Register × ℤ),
    (e.after (ws.map fun w => w.1.write w.2)).Dumps (written t ws)
  /-- Writes to two registers come to the same in either order. -/
  comm : ∀ (r r' : Register) (v v' : ℤ), r ≠ r' →
    e.after [r.write v, r'.write v'] = e.after [r'.write v', r.write v]

/-- Commands that can be written leave the machine of an engine sound. -/
lemma sound_after {cs : List Command} (hm : e.machine.Sound) (hcs : ∀ c ∈ cs, c.Encodes) :
    (e.after cs).machine.Sound := by
  induction cs generalizing e with
  | nil => exact hm
  | cons c cs ih =>
    obtain ⟨n, hcalls⟩ := calls_handle e c
    exact ih (hcalls.sound (hcs c List.mem_cons_self) hm) fun d hd =>
      hcs d (List.mem_cons_of_mem c hd)

/-- **Registers act as a table**: whatever commands a client has sent to a session on a machine
without overrides, as long as the session has not come to its end, its registers are those of a
table. A client reads the table, and writes its entries one by one: each takes the whole numbers up
to its capacity, and no write has to do with another entry.

**Proof sketch.** The commands leave the machine sound. A sound machine has four data and two
address registers, so its registers are those of a table, and their text is read as they are. A
write that is accepted is one in the table, and any other is refused. -/
theorem registers_act_as_table (program : List (Number × Op)) {size : ℕ}
    (hsize : size ≤ Number.exactLimit) (logCommands : Bool) {cs : List Command}
    (hcs : ∀ c ∈ cs, ∃ bytes n, Command.decode bytes = .value c n) {e : Engine}
    (he : (start (.initial program size {}) logCommands).after cs = e)
    (hlive : e.terminated = false) :
    ∃ t, e.ActsAsTable t := by
  have hencodes : ∀ c ∈ cs, c.Encodes := by
    intro c hc
    obtain ⟨bytes, n, hdecode⟩ := hcs c hc
    exact Command.encodes_of_decode hdecode
  have hm : e.machine.Sound := he ▸ sound_after (Machine.sound_initial program hsize) hencodes
  obtain ⟨t, ht⟩ := Snapshot.exists_ofTable hm.regs.dataRegs.1 hm.regs.addrRegs.1
  have hdumps (r : Register) (v : ℤ) :
      (e.handle (r.write v)).1.Dumps (if r.Holds v then Function.update t r (.whole v) else t) := by
    obtain ⟨hlive', hsound⟩ := sound_handle_write hlive hm r v
    exact dumps_of_regs_eq hlive' hsound (regs_handle_write hlive hm.plain ht r v)
  refine ⟨t, {
    dumps := dumps_of_regs_eq hlive hm ht
    accepts_iff := fun r v => ?_
    accepted := fun r v h => ?_
    refused := fun r v h => ?_
    writes := fun ws => ?_
    comm := fun r r' v v' h => after_write_comm hlive hm h v v' }⟩
  · refine ⟨fun hnone => by_contra fun h => ?_, fun h => by rw [apply_write hm.plain h]; rfl⟩
    rw [(refuses_write h).apply_eq hm.plain] at hnone
    cases hnone
  · have hreply := reply_write hlive hm.plain r v
    have hdump := hdumps r v
    rw [if_pos h] at hreply hdump
    exact ⟨hreply, hdump⟩
  · have hreply := reply_write hlive hm.plain r v
    have hdump := hdumps r v
    rw [if_neg h] at hreply hdump
    exact ⟨⟨_, hreply⟩, hdump⟩
  · obtain ⟨hlive', hsound, hregs⟩ := regs_writes hlive hm ht ws
    exact dumps_of_regs_eq hlive' hsound hregs

/-- A program that waits for a key has its accumulator and the overflow flag written, each with a
value that fits and one that does not. -/
theorem registers_act_as_table_of_waiting :
    ∃ e t, (start (.initial [(0, .inc), (1, .readKey)] 4 {}) false).after [.step,
      .setRegister "d3" 200, .step] = e ∧
      e.state = .suspended .key ∧ e.ActsAsTable t ∧
      (reply (e, Register.acc.write 255) = [] ∧
        (e.handle (Register.acc.write 255)).1.Dumps (Function.update t .acc (.whole 255))) ∧
      ((∃ text, reply (e, Register.overflowed.write 2) = [.errorOutput text]) ∧
        (e.handle (Register.overflowed.write 2)).1.Dumps t) ∧
      (e.after [Register.acc.write 255, Register.acc.write 256, Register.overflowed.write 1,
        Register.acc.write (-1)]).Dumps
          (Function.update (Function.update t .acc (.whole 255)) .overflowed (.whole 1)) := by
  have hcs : ∀ c ∈ [.step, .setRegister "d3" 200, .step],
      ∃ bytes n, Command.decode bytes = .value c n := by
    simp only [List.forall_mem_cons]
    exact ⟨⟨[0x65], 1, rfl⟩, ⟨[0x72, 5, 200], 3, rfl⟩, ⟨[0x65], 1, rfl⟩,
      fun _ h => absurd h List.not_mem_nil⟩
  have hsize : 4 ≤ Number.exactLimit := by decide
  obtain ⟨t, h⟩ := registers_act_as_table [(0, .inc), (1, .readKey)] hsize false hcs rfl rfl
  refine ⟨_, t, rfl, rfl, h, h.accepted .acc 255 (by decide),
    h.refused .overflowed 2 (by decide), ?_⟩
  have hwrites := h.writes [(.acc, 255), (.acc, 256), (.overflowed, 1), (.acc, -1)]
  rwa [written_cons, if_pos (by decide), written_cons, if_neg (by decide), written_cons,
    if_pos (by decide), written_cons, if_neg (by decide)] at hwrites

end Engine

end DebugWire
