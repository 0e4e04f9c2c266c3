import DebugWire.Proofs.Engine.Observing
import DebugWire.Proofs.Engine.Poking
import DebugWire.Proofs.Machine.Storage
import DebugWire.Proofs.Wire.Canonical

set_option relaxedAutoImplicit false
set_option autoImplicit false

/-!
# Memory over whole runs

Over a whole run, the memory of a machine without overrides behaves like an array of bytes. A client
stores bytes into it, and so does an instruction that puts the accumulator on the stack, each at its
place. Nothing else stores anything. What a client asks for is what the array has, and what lies
outside of it is refused.

## Main definitions

* `DebugWire.Engine.store?`, `DebugWire.Engine.stores` — what commands store.
* `DebugWire.Engine.ActsAsArray` — an engine that deals with a command as an array would.

## Main results

* `DebugWire.Engine.memory_handle` — memory after one command.
* `DebugWire.Engine.mirrors_after` — memory after any commands.
* `DebugWire.Engine.actsAsArray_after` — what any command comes to in any run.
-/

namespace DebugWire

namespace Engine

open Machine (stored)

variable {e : Engine} {c : Command}

/-! ## Stores -/

/-- What a command stores: bytes that are to be written, if they fit into memory, and what the
instruction stores that a step executes. -/
def store? (e : Engine) (c : Command) : Option Store :=
  match c with
  | .setMemory (.whole n) bytes =>
    if e.terminated = false ∧ 0 ≤ n ∧
      n + bytes.length ≤ e.machine.size then some ⟨n.toNat, bytes⟩ else none
  | c => if e.honours c = true then e.machine.store? else none

/-- What commands store, in order. -/
def stores (e : Engine) (cs : List Command) : List Store := (e.moments cs).filterMap fun m =>
    m.1.store? m.2

/-- What a command and others store is what the first does, and then what the others do. -/
lemma stores_cons (e : Engine) (c : Command) (cs : List Command) :
    e.stores (c :: cs) = (e.store? c).toList ++ (e.handle c).1.stores cs := by
  rw [stores, moments, List.filterMap_cons]
  cases e.store? c <;> rfl

/-- Bytes for a place in memory that can be counted. -/
lemma store?_setMemory (he : e.terminated = false) (a : ℕ) (bytes : Bytes) :
    e.store? (.setMemory (a : Number) bytes) =
      if a + bytes.length ≤ e.machine.size then some ⟨a, bytes⟩ else none := by
  have hiff : (e.terminated = false ∧ 0 ≤ (a : ℤ) ∧ (a : ℤ) + bytes.length ≤ e.machine.size) ↔
      a + bytes.length ≤ e.machine.size :=
    ⟨fun h => by omega, fun h => ⟨he, by omega, by omega⟩⟩
  simp only [store?, hiff, Int.toNat_natCast]

/-- A step stores what its instruction stores, if it is honoured. -/
lemma store?_of_isStep (hc : c.isStep = true) :
    e.store? c = if e.honours c = true then e.machine.store? else none := by
  cases c with
  | step | stepIgnoringBreakpoints => rfl
  | _ => cases hc

/-- Nothing is stored but bytes that are to be written and what a step puts on the stack. -/
lemma store?_of_others (hc : ∀ address bytes, c ≠ .setMemory address bytes)
    (hpush : ¬ (e.honours c = true ∧ e.machine.opAt? e.machine.regs.pc = some .push)) :
    e.store? c = none := by
  unfold store?
  split
  case h_1 n bytes => exact absurd rfl (hc _ _)
  case h_2 =>
    split_ifs with hhonours
    · rw [Machine.store?, if_neg fun hop => hpush ⟨hhonours, hop⟩]
    · rfl

/-- What is stored fits into memory.

**Proof sketch.** Bytes that a command writes have passed the check of their range, and a byte that
is pushed goes to a place inside of memory. -/
lemma fits_of_store? {s : Store} (h : e.store? c = some s) :
    s.place + s.bytes.length ≤ e.machine.size := by
  unfold store? at h
  split at h
  case h_1 n bytes =>
    obtain ⟨hfit, rfl⟩ := Option.ite_none_right_eq_some.1 h |>.imp_right Option.some.inj
    dsimp only
    omega
  case h_2 =>
    obtain ⟨-, h⟩ := Option.ite_none_right_eq_some.1 h
    unfold Machine.store? at h
    obtain ⟨-, h⟩ := Option.ite_none_right_eq_some.1 h
    split at h
    case h_1 sp _ =>
      obtain ⟨hin, rfl⟩ := Option.ite_none_right_eq_some.1 h |>.imp_right Option.some.inj
      simp only [List.length_singleton]
      omega
    case h_2 => cases h

/-! ## One command -/

/-- Input leaves memory alone, for it is handed to the program and not stored. -/
lemma memory_input (hm : e.machine.Plain) (i : Input) :
    (e.input i).engine.machine.memory = e.machine.memory := by
  by_cases hp : e.relay.pending = some i.kind
  · rw [input_of_pending_eq hp, machine_running]
    cases i with
    | key key => rw [Input.deliver, hm.supplyKey_eq]; rfl
    | string text => rw [Input.deliver, hm.supplyString_eq]; rfl
  · rw [input_of_pending_ne hp]
    rfl

/-- Writing a register leaves memory alone.

**Proof sketch.** A name that is none, or a value out of range, is refused. Otherwise the register
is set, which is nothing that memory sees. -/
lemma memory_writeRegister (hm : e.machine.Plain) (register : String) (value : Number) :
    (e.machine.writeRegister register value).machine.memory = e.machine.memory := by
  unfold Machine.writeRegister
  cases Register.ofName? register with
  | none => rfl
  | some r =>
    dsimp only
    split_ifs
    · rw [hm.setRegister_eq]
      rfl
    · rfl

/-- A step leaves in memory what its instruction stores. -/
lemma memory_handle_step (hm : e.machine.Sound) (hc : c.isStep = true) :
    (e.handle c).1.machine.memory = stored e.machine.memory (e.store? c) := by
  rw [store?_of_isStep hc]
  cases hhonours : e.honours c with
  | true =>
    rw [machine_handle_of_honours hm.plain hhonours, if_pos rfl, Machine.memory_execute hm.regs.sp]
  | false => rw [handle_of_not_honours hm.plain hc hhonours, if_neg Bool.false_ne_true]; rfl

/-- Bytes that do not fit into memory are refused. -/
lemma refuses_setMemory {a : ℕ} {bytes : Bytes} (h : (Command.setMemory (a : Number) bytes).Encodes)
    (hfit : e.machine.size < a + bytes.length) :
    e.Refuses (.setMemory (a : Number) bytes)
      (.outOfRange (a : Number) (bytes.length : Number) e.machine.size) := by
  obtain ⟨n, hn, ha, hlen⟩ := Command.exists_natCast_of_setMemory h
  obtain rfl : a = n := Int.ofNat.inj (Number.whole.inj ha)
  refine .write fun hin => ?_
  have := (Machine.holds_natCast (by simp only [Number.exactLimit, Chunk.maxSize] at *; omega)).1
    hin
  omega

/-- **Memory after one command** is that before with what the command stores.

**Proof sketch.** Bytes that are to be written are, if they fit, and are refused if not. A step
executes its instruction if it is honoured, and leaves the engine as it is if not. No other command
has anything to do with memory. -/
theorem memory_handle (hm : e.machine.Sound) (hc : c.Encodes) :
    (e.handle c).1.machine.memory = stored e.machine.memory (e.store? c) := by
  cases he : e.terminated with
  | true =>
    have hnone : e.store? c = none := by
      have hhonours : e.honours c = false := Bool.eq_false_iff.2 fun h => by
        rw [terminated_of_idle (idle_of_honours h)] at he
        cases he
      unfold store?
      split
      · exact if_neg fun h => Bool.false_ne_true (h.1.symm.trans he)
      · rw [hhonours, if_neg Bool.false_ne_true]
    rw [handle, if_pos he, hnone]
    rfl
  | false =>
    cases c with
    | step | stepIgnoringBreakpoints => exact memory_handle_step hm rfl
    | setMemory address bytes =>
      obtain ⟨a, -, rfl, -⟩ := Command.exists_natCast_of_setMemory hc
      rw [store?_setMemory he]
      split_ifs with hfit
      · rw [handle_setMemory he hm.plain hm.size hfit]
        rfl
      · rw [(handle_of_refuses hm.plain he (refuses_setMemory hc (Nat.lt_of_not_le hfit))).1]
        rfl
    | requestDump | requestMemory first limit | requestStack =>
      rw [engine_handle_query hm.plain rfl]; rfl
    | stop => rw [machine_handle he]; rfl
    | setBreakpoint address | clearBreakpoint address =>
      rw [machine_handle he]
      simp only [apply, withBreakpoints]
      split <;> rfl
    | setRegister register value =>
      rw [machine_handle he, apply, machine_took fun _ => rfl]
      exact memory_writeRegister hm.plain register value
    | inputKey key | inputString text =>
      rw [machine_handle he, apply]
      exact memory_input hm.plain _

/-! ## Runs -/

variable {size : ℕ} {array : ℕ → UInt8}

/-- A machine that mirrors an array mirrors, after a command, the array with what the command
stores.

**Proof sketch.** The memory after the command is that with its store, if it has one, written over
it. A store lies inside of memory, so it is the same as writing over the array. -/
lemma mirrors_handle (h : e.machine.Mirrors size array) (hc : c.Encodes) :
    (e.handle c).1.machine.Mirrors size (Store.written array (e.store? c).toList) := by
  obtain ⟨n, hcalls⟩ := calls_handle e c
  refine ⟨hcalls.sound hc h.sound, hcalls.byteAcc hc h.sound.plain h.byteAcc, ?_⟩
  rw [memory_handle h.sound hc, h.memory]
  cases hs : e.store? c with
  | none => rfl
  | some s =>
    have hfit := fits_of_store? hs
    rw [h.size_eq] at hfit
    exact Store.overwrite_segment hfit

/-- **Memory after any commands** that can be written is the array with all that they store. -/
theorem mirrors_after {cs : List Command} (h : e.machine.Mirrors size array)
    (hcs : ∀ c ∈ cs, c.Encodes) :
    (e.after cs).machine.Mirrors size (Store.written array (e.stores cs)) := by
  induction cs generalizing e array with
  | nil => exact h
  | cons c cs ih =>
    have hrest := ih (mirrors_handle h (hcs c List.mem_cons_self)) fun d hd =>
      hcs d (List.mem_cons_of_mem c hd)
    rw [after_cons, stores_cons, Store.written, List.foldl_append]
    exact hrest

/-- An engine *acts as an array* of the given size when it handles a command. -/
structure ActsAsArray (e : Engine) (size : ℕ) (array : ℕ → UInt8) (c : Command) : Prop where
  /-- Its memory are the bytes of the array. -/
  memory : e.machine.memory = Store.segment array 0 size
  /-- After the command, they are those of the array with what the command stores. -/
  memory_handle :
    (e.handle c).1.machine.memory = Store.segment (Store.written array (e.store? c).toList) 0 size
  /-- Memory stays as it is, unless bytes are to be written or a step puts the accumulator on the
  stack. -/
  others : (∀ address bytes, c ≠ .setMemory address bytes) →
    ¬ (e.honours c = true ∧ e.machine.opAt? e.machine.regs.pc = some .push) →
    (e.handle c).1.machine.memory = e.machine.memory
  /-- A range of memory that is asked for is answered with its bytes, or refused with one message.
  -/
  requestMemory : ∀ {first limit : Number}, c = .requestMemory first limit → e.terminated = false →
    ∃ a b : ℕ, first = (a : Number) ∧ limit = (b : Number) ∧
      (a ≤ b ∧ b ≤ size → reply (e, c) = [.memoryResult (Store.segment array a (b - a))]) ∧
      (¬ (a ≤ b ∧ b ≤ size) → ∃ text, reply (e, c) = [.errorOutput text])
  /-- Bytes that are to be written are stored if they fit. If not, nothing changes and there is one
  message. -/
  setMemory : ∀ {address : Number} {bytes : Bytes}, c = .setMemory address bytes →
  e.terminated = false →
    ∃ a : ℕ, address = (a : Number) ∧
      (a + bytes.length ≤ size → e.store? c = some ⟨a, bytes⟩) ∧
      (size < a + bytes.length → (e.handle c).1 = e ∧ ∃ text, reply (e, c) = [.errorOutput text])
  /-- A step that puts the accumulator on the stack stores it below the stack pointer, if that is
  inside of memory. -/
  push : e.honours c = true → e.machine.opAt? e.machine.regs.pc = some .push →
    ∃ (acc : UInt8) (sp : ℤ), e.machine.regs.acc = (acc.toNat : Number) ∧
    e.machine.regs.sp = .whole sp ∧
      e.store? c = if 0 ≤ sp - 1 ∧ sp - 1 < size then some ⟨(sp - 1).toNat, [acc]⟩ else none
  /-- The stack is answered from the stack pointer on. It is empty behind memory, and before it is
  refused. -/
  requestStack : c = .requestStack → e.terminated = false →
    ∃ sp : ℤ, e.machine.regs.sp = .whole sp ∧
      (0 ≤ sp ∧ sp < size →
        reply (e, c) = [.stackResult (Store.segment array sp.toNat (size - sp.toNat))]) ∧
      (size ≤ sp → reply (e, c) = [.stackResult []]) ∧
      (sp < 0 → ∃ text, reply (e, c) = [.errorOutput text])

/-! ## Laws -/

section

variable (h : e.machine.Mirrors size array) (he : e.terminated = false)
include h he

/-- A range inside of memory is answered with its bytes. -/
lemma reply_requestMemory {a b : ℕ} (hab : a ≤ b) (hb : b ≤ size) :
    reply (e, .requestMemory (a : Number) (b : Number)) =
      [.memoryResult (Store.segment array a (b - a))] := by
  refine (handle_of_apply_eq_answer he ?_).2
  rw [apply, h.sound.plain.readRange_eq h.sound.size hab (h.size_eq.symm ▸ hb), took_done, h.memory,
    Store.take_drop_segment (by omega)]

/-- Any other range is refused.

**Proof sketch.** A range that is out of order is refused as such, and one in order because it goes
beyond the memory. -/
lemma exists_reply_requestMemory {a b : ℕ} (hb : b ≤ 0xffff) (hout : ¬ (a ≤ b ∧ b ≤ size)) :
    ∃ text, reply (e, .requestMemory (a : Number) (b : Number)) = [.errorOutput text] := by
  have hrefuses : ∃ f, e.Refuses (.requestMemory (a : Number) (b : Number)) f := by
    by_cases hab : a ≤ b
    · refine ⟨_, .memory ?_ fun hin => ?_⟩
      · rw [Number.lt_natCast, decide_eq_false_iff_not]
        omega
      · have hexact : b ≤ Number.exactLimit := by simp only [Number.exactLimit]; omega
        rw [Number.natCast_sub_natCast hab hexact] at hin
        have := (Machine.holds_natCast (by omega)).1 hin
        rw [h.size_eq] at this
        omega
    · refine ⟨_, .inverted ?_⟩
      rw [Number.lt_natCast, decide_eq_true_eq]
      omega
  obtain ⟨f, hf⟩ := hrefuses
  exact ⟨f.message, (handle_of_refuses h.sound.plain he hf).2⟩

/-- The stack is answered from the stack pointer on.

**Proof sketch.** A plain machine answers with its memory from the stack pointer on. That is the
segment of the array, and an empty one if the pointer is behind the end. -/
lemma reply_requestStack {sp : ℤ} (hsp : e.machine.regs.sp = .whole sp) (hneg : ¬ sp < 0) :
    reply (e, .requestStack) = [.stackResult (Store.segment array sp.toNat (size - sp.toNat))] := by
  refine (handle_of_apply_eq_answer he ?_).2
  have hdrop : (Store.segment array 0 size).drop sp.toNat =
      Store.segment array sp.toNat (size - sp.toNat) := by
    by_cases hle : sp.toNat ≤ size
    · have hall : ((Store.segment array 0 size).drop sp.toNat).take (size - sp.toNat) =
          Store.segment array sp.toNat (size - sp.toNat) := Store.take_drop_segment (by omega)
      rwa [List.take_of_length_le (by rw [List.length_drop, Store.length_segment])] at hall
    · rw [List.drop_eq_nil_of_le (by rw [Store.length_segment]; omega),
        Nat.sub_eq_zero_of_le (by omega)]
      rfl
  rw [apply, h.sound.readStack_eq hsp, if_neg hneg, took_done, h.memory, hdrop]

/-- A stack pointer before memory is refused, with an error output and nothing else. -/
lemma exists_reply_requestStack {sp : ℤ} (hsp : e.machine.regs.sp = .whole sp) (hneg : sp < 0) :
    ∃ text, reply (e, .requestStack) = [.errorOutput text] := by
  have hlt : Number.le (e.machine.size : Number) e.machine.regs.sp = false := by
    rw [hsp, Number.le_whole, decide_eq_false_iff_not]
    omega
  have hout : ¬ e.machine.Holds e.machine.regs.sp (e.machine.size - e.machine.regs.sp) := by
    rw [hsp]
    exact Machine.not_holds_of_neg hneg _
  exact ⟨_, (handle_of_refuses h.sound.plain he (.stack hlt hout)).2⟩

end

/-- The low byte of a byte is that byte. -/
lemma lowByte_natCast (b : UInt8) : Number.lowByte (b.toNat : Number) = b := by
  have hb := b.toNat_lt
  have hmod : ((b.toNat : ℤ) % 256).toNat = b.toNat := by omega
  simp only [Number.lowByte, Number.truncate, hmod, UInt8.ofNat_toNat]

/-- **Memory acts as an array**: whatever commands a client has sent to a session on a machine
without overrides, its memory is that of an array of zeros into which all was stored that these
commands store. The next command is dealt with as such an array would.

**Proof sketch.** The machine mirrors the array by induction on the commands. One command leaves in
memory what it stores, and it leaves the machine sound and a byte in the accumulator. -/
theorem actsAsArray_after (program : List (Number × Op)) {size : ℕ}
    (hsize : size ≤ Number.exactLimit) (logCommands : Bool) {cs : List Command} {c : Command}
    (hcs : ∀ d ∈ cs ++ [c], ∃ bytes n, Command.decode bytes = .value d n) {e : Engine}
    (he : start (.initial program size {}) logCommands = e) :
    (e.after cs).ActsAsArray size (Store.written (fun _ => 0) (e.stores cs)) c := by
  have hencodes : ∀ d ∈ cs ++ [c], d.Encodes := by
    intro d hd
    obtain ⟨bytes, n, hdecode⟩ := hcs d hd
    exact Command.encodes_of_decode hdecode
  have hc : c.Encodes := hencodes c (List.mem_append_right cs List.mem_cons_self)
  have hstart : e.machine.Mirrors size fun _ => 0 := he ▸ Machine.mirrors_initial program hsize
  have h := mirrors_after hstart fun d hd => hencodes d (List.mem_append_left [c] hd)
  obtain ⟨sp, -, hsp⟩ := h.sound.regs.sp
  obtain ⟨acc, hacc⟩ := h.byteAcc
  refine {
    memory := h.memory
    memory_handle := (mirrors_handle h hc).memory
    others :=
      fun hother hpush => by rw [memory_handle h.sound hc, store?_of_others hother hpush]; rfl
    requestMemory := ?_, setMemory := ?_, push := ?_, requestStack := ?_ }
  · rintro first limit rfl hlive
    obtain ⟨a, b, -, hb, rfl, rfl⟩ := Command.exists_natCast_of_requestMemory hc
    exact ⟨a, b, rfl, rfl, fun hin => reply_requestMemory h hlive hin.1 hin.2,
      fun hout => exists_reply_requestMemory h hlive hb hout⟩
  · rintro address bytes rfl hlive
    obtain ⟨a, -, rfl, -⟩ := Command.exists_natCast_of_setMemory hc
    refine ⟨a, rfl, fun hfit => ?_, fun hfit => ?_⟩
    · rw [store?_setMemory hlive, if_pos (h.size_eq.symm ▸ hfit)]
    · obtain ⟨hsame, hreply⟩ :=
        handle_of_refuses h.sound.plain hlive (refuses_setMemory hc (h.size_eq.symm ▸ hfit))
      exact ⟨hsame, _, hreply⟩
  · intro hhonours hop
    refine ⟨acc, sp, hacc, hsp, ?_⟩
    have hstep : c.isStep = true := by cases c <;> first | rfl | cases hhonours
    rw [store?_of_isStep hstep, if_pos hhonours, Machine.store?, if_pos hop, hsp, hacc,
      lowByte_natCast, h.size_eq]
    simp only [show 1 ≤ sp ∧ sp ≤ size ↔ 0 ≤ sp - 1 ∧ sp - 1 < size by omega]
  · rintro rfl hlive
    refine ⟨sp, hsp, fun hin => reply_requestStack h hlive hsp (by omega), fun hle => ?_,
      fun hneg => exists_reply_requestStack h hlive hsp hneg⟩
    rw [reply_requestStack h hlive hsp (by omega), Nat.sub_eq_zero_of_le (by omega)]
    rfl

/-- Bytes are written, two others are put on the stack, and then a range at the end of memory is
asked for, one that is too long, and the stack. One byte too many is to be written. -/
theorem actsAsArray_after_push :
    ∃ e, (start (.initial [(0, .push), (1, .push)] 4 {}) false).after
        [.setMemory 0 [1, 2, 3], .setRegister "acc" 7, .step, .setRegister "acc" 8, .step] = e ∧
      reply (e, .requestMemory 1 4) = [.memoryResult [2, 8, 7]] ∧
      (∃ text, reply (e, .requestMemory 1 5) = [.errorOutput text]) ∧
      (e.handle (.setMemory 3 [5, 6])).1 = e ∧
      reply (e, .requestStack) = [.stackResult [8, 7]] := by
  have hcs (c : Command) (hc : ∃ bytes n, Command.decode bytes = .value c n) :
      ∀ d ∈ [.setMemory 0 [1, 2, 3], .setRegister "acc" 7, .step, .setRegister "acc" 8,
        .step] ++ [c], ∃ bytes n, Command.decode bytes = .value d n := by
    simp only [List.cons_append, List.nil_append, List.forall_mem_cons]
    refine ⟨⟨[0x6e, 0, 0, 3, 1, 2, 3], 7, rfl⟩, ⟨[0x72, 1, 7], 3, rfl⟩, ⟨[0x65], 1, rfl⟩,
      ⟨[0x72, 1, 8], 3, rfl⟩, ⟨[0x65], 1, rfl⟩, hc, fun _ h => absurd h List.not_mem_nil⟩
  have hsize : 4 ≤ Number.exactLimit := by decide
  have laws {c : Command} (hc : ∃ bytes n, Command.decode bytes = .value c n) :=
    actsAsArray_after [(0, .push), (1, .push)] hsize false (hcs c hc) rfl
  refine ⟨_, rfl, ?_, ?_, ?_, ?_⟩
  · obtain ⟨a, b, ha, hb, hin, -⟩ := (laws ⟨[0x6d, 0, 1, 0, 4], 5, rfl⟩).requestMemory rfl rfl
    obtain rfl : 1 = a := Int.ofNat.inj (Number.whole.inj ha)
    obtain rfl : 4 = b := Int.ofNat.inj (Number.whole.inj hb)
    exact hin ⟨by decide, by decide⟩
  · obtain ⟨a, b, ha, hb, -, hout⟩ := (laws ⟨[0x6d, 0, 1, 0, 5], 5, rfl⟩).requestMemory rfl rfl
    obtain rfl : 5 = b := Int.ofNat.inj (Number.whole.inj hb)
    exact hout fun h => absurd h.2 (by decide)
  · obtain ⟨a, ha, -, hout⟩ := (laws ⟨[0x6e, 0, 3, 2, 5, 6], 6, rfl⟩).setMemory rfl rfl
    obtain rfl : 3 = a := Int.ofNat.inj (Number.whole.inj ha)
    exact (hout (by decide)).1
  · obtain ⟨sp, hsp, hin, -, -⟩ := (laws ⟨[0x73], 1, rfl⟩).requestStack rfl rfl
    obtain rfl : 2 = sp := Number.whole.inj hsp
    exact hin ⟨by decide, by decide⟩

end Engine

end DebugWire
