import DebugWire.Machine.Checked
import DebugWire.Wire.Command
import Mathlib.Data.Nat.Notation
import Mathlib.Tactic.Lemma
import Mathlib.Tactic.SplitIfs

set_option relaxedAutoImplicit false
set_option autoImplicit false

/-!
# Calls of a machine

What a command does to a machine is a sequence of calls of its methods. A machine is *plain* if no
call of it is overridden. Then each call does its normal work, stays away from the overrides, and
only a step counts as one.

## Main definitions

* `DebugWire.Machine.Plain` — a machine without overrides.
* `DebugWire.Machine.Calls` — a machine after calls that a command may make.

## Main results

* `DebugWire.Machine.Plain.step_eq`, `DebugWire.Machine.Plain.registers_eq`, … — the calls of a
  plain machine.
* `DebugWire.Machine.Calls.plain` — a plain machine after calls, and its count of steps.
* `DebugWire.Machine.Calls.of_readRange`, … — the calls of checked access.
-/

namespace DebugWire

/-- Whether a command is a step, of either kind. -/
def Command.isStep : Command → Bool
  | step | stepIgnoringBreakpoints => true
  | _ => false

namespace Machine

/-! ## Plain machines -/

/-- A machine is *plain* if none of its calls is overridden. -/
def Plain (m : Machine) : Prop := m.plans = {}

namespace Plain

variable {m : Machine}

/-- A plain machine tells its registers as they are, and stays as it is. -/
lemma registers_eq (h : m.Plain) : m.registers = .done m m.regs := by
  obtain ⟨program, memory, regs, steps, lastString, plans⟩ := m
  obtain rfl : plans = {} := h
  rfl

/-- A plain machine reads the bytes of memory from an address on. -/
lemma read_eq (h : m.Plain) (address length : Number) :
    m.read address length = .done m (slice m.memory address (address + length)) := by
  obtain ⟨program, memory, regs, steps, lastString, plans⟩ := m
  obtain rfl : plans = {} := h
  rfl

/-- The stack of a plain machine lies between its pointer and the end of memory. -/
lemma stackBounds_eq (h : m.Plain) : m.stackBounds = .done m ⟨m.regs.sp, m.size⟩ := by
  obtain ⟨program, memory, regs, steps, lastString, plans⟩ := m
  obtain rfl : plans = {} := h
  rfl

/-- A plain machine sets the register and nothing else. -/
lemma setRegister_eq (h : m.Plain) (r : Register) (value : Number) :
    m.setRegister r value = .done { m with regs := m.regs.set r value } () := by
  obtain ⟨program, memory, regs, steps, lastString, plans⟩ := m
  obtain rfl : plans = {} := h
  rfl

/-- A plain machine steps by executing an instruction, since nothing of its script intervenes. -/
lemma step_eq (h : m.Plain) : m.step = m.execute := by
  obtain ⟨program, memory, regs, steps, lastString, plans⟩ := m
  obtain rfl : plans = {} := h
  rfl

/-- A plain machine puts the code of the key into its accumulator and goes on behind the
instruction. -/
lemma supplyKey_eq (h : m.Plain) (key : String) :
    m.supplyKey key = .done { m with regs := { m.regs with acc := keyCode key } }.advance .ok := by
  obtain ⟨program, memory, regs, steps, lastString, plans⟩ := m
  obtain rfl : plans = {} := h
  rfl

/-- A plain machine keeps the text, puts its size into the accumulator, up to the greatest byte, and
goes on behind the instruction. -/
lemma supplyString_eq (h : m.Plain) (text : Utf16) :
    m.supplyString text = .done
      { m with
        lastString := some text
        regs := { m.regs with acc := ((min text.size 0xff : ℕ) : Number) } }.advance .ok := by
  obtain ⟨program, memory, regs, steps, lastString, plans⟩ := m
  obtain rfl : plans = {} := h
  rfl

/-- Bytes written over a place inside of memory leave its size. -/
lemma length_overwrite {memory bytes : Bytes} {place : ℕ}
    (h : place + bytes.length ≤ memory.length) :
    (overwrite memory place bytes).length = memory.length := by
  rw [overwrite, List.length_append, List.length_append, List.length_take, List.length_drop]
  omega

/-- Writing bytes changes nothing but memory, and leaves its size.

**Proof sketch.** An address that stands for no place, or from which the bytes do not fit, leaves
the memory; otherwise they overwrite as many bytes as they are. -/
lemma write_machine (h : m.Plain) (address : Number) (bytes : Bytes) :
    ∃ memory, memory.length = m.memory.length ∧
      (m.write address bytes).machine = { m with memory := memory } := by
  obtain ⟨program, memory, regs, steps, lastString, plans⟩ := m
  obtain rfl : plans = {} := h
  simp only [write, overridable]
  cases address.truncate with
  | none => exact ⟨memory, rfl, rfl⟩
  | some n =>
    dsimp only
    split_ifs with hn
    · refine ⟨_, length_overwrite ?_, rfl⟩
      obtain ⟨h0, hle⟩ := hn
      have hle : n + bytes.length ≤ (memory.length : Int) := hle
      omega
    · exact ⟨memory, rfl, rfl⟩

/-- Doing the work of an operation leaves the overrides and the count of steps alone. -/
lemma perform_machine (m : Machine) (op : Op) :
    (m.perform op).machine.plans = m.plans ∧ (m.perform op).machine.steps = m.steps := by
  cases op <;> exact ⟨rfl, rfl⟩

/-- Executing one instruction counts as one step and leaves the overrides alone. -/
lemma execute_machine (m : Machine) :
    m.execute.machine.plans = m.plans ∧ m.execute.machine.steps = m.steps + 1 := by
  unfold execute
  dsimp only
  split
  · exact perform_machine _ _
  · exact ⟨rfl, rfl⟩

end Plain

/-! ## Calls -/

/-- A machine after calls that a command may make, and the number of steps among them. Only a step
makes a step, and only input is handed on as input; a value for a register has been checked before.
-/
inductive Calls (c : Command) (m : Machine) : ℕ → Machine → Prop
  | none : Calls c m 0 m
  | registers {n : ℕ} {m' : Machine} : Calls c m n m' → Calls c m n m'.registers.machine
  | read {n : ℕ} {m' : Machine} (address length : Number) :
    Calls c m n m' → Calls c m n (m'.read address length).machine
  | stackBounds {n : ℕ} {m' : Machine} : Calls c m n m' → Calls c m n m'.stackBounds.machine
  | write {n : ℕ} {m' : Machine} (address : Number) (bytes : Bytes) :
    Calls c m n m' → Calls c m n (m'.write address bytes).machine
  | setRegister {n : ℕ} {m' : Machine} (r : Register) (value : Number) :
    value.isWithin r.limit = true → Calls c m n m' → Calls c m n (m'.setRegister r value).machine
  | supplyKey {n : ℕ} {m' : Machine} (key : String) :
    c = .inputKey key → Calls c m n m' → Calls c m n (m'.supplyKey key).machine
  | supplyString {n : ℕ} {m' : Machine} (text : Utf16) :
    c = .inputString text → Calls c m n m' → Calls c m n (m'.supplyString text).machine
  | step {n : ℕ} {m' : Machine} :
      c.isStep = true → Calls c m n m' → Calls c m (n + 1) m'.step.machine

namespace Calls

variable {c : Command} {m m' : Machine} {n : ℕ}

/-- A command that is no step makes no call to step. -/
lemma eq_zero (h : Calls c m n m') (hc : c.isStep = false) : n = 0 := by
  induction h with
  | none => rfl
  | registers _ ih | read _ _ _ ih | stackBounds _ ih | write _ _ _ ih | setRegister _ _ _ _ ih
  | supplyKey _ _ _ ih | supplyString _ _ _ ih => exact ih
  | step hs =>
    rw [hc] at hs
    cases hs

/-- **A plain machine after calls** is plain, and its count has grown by the steps among them.

**Proof sketch.** Induction on the calls. Only a step executes an instruction, which adds one to the
count; the other calls come to what a plain machine answers. -/
theorem plain (h : Calls c m n m') (hm : m.Plain) : m'.Plain ∧ m'.steps = m.steps + n := by
  induction h with
  | none => exact ⟨hm, rfl⟩
  | registers _ ih =>
    rw [ih.1.registers_eq]
    exact ih
  | read address length _ ih =>
    rw [ih.1.read_eq]
    exact ih
  | stackBounds _ ih =>
    rw [ih.1.stackBounds_eq]
    exact ih
  | write address bytes _ ih =>
    obtain ⟨memory, -, he⟩ := ih.1.write_machine address bytes
    rw [he]
    exact ih
  | setRegister r value _ _ ih =>
    rw [ih.1.setRegister_eq]
    exact ih
  | supplyKey key _ _ ih =>
    rw [ih.1.supplyKey_eq]
    exact ih
  | supplyString text _ _ ih =>
    rw [ih.1.supplyString_eq]
    exact ih
  | step _ _ ih =>
    rw [ih.1.step_eq]
    obtain ⟨hp, hs⟩ := Plain.execute_machine _
    exact ⟨hp.trans ih.1, by rw [hs, ih.2, Nat.add_assoc]⟩

/-! ## Checked access -/

/-- A call behind a check is made if the check passes, and otherwise no call is. -/
lemma of_checked {α : Type} {check : Except Fault Unit} {call : Call α} (h : Calls c m n m')
    (hc : Calls c m n call.machine) : Calls c m n (m'.checked check call).machine := by
  unfold checked
  split
  · exact hc
  · exact h

/-- Reading a range is one call at most, behind the checks of its ends. -/
lemma of_readRange (h : Calls c m n m') (first limit : Number) :
    Calls c m n (m'.readRange first limit).machine := by
  unfold readRange
  split_ifs
  · exact h
  · exact h.of_checked (h.read _ _)

/-- Reading the stack is two calls at most.

**Proof sketch.** The bounds of the stack are asked for first. The stack is read only if that works
and the range passes the check. -/
lemma of_readStack (h : Calls c m n m') : Calls c m n m'.readStack.machine := by
  have hb := h.stackBounds
  unfold readStack Call.andThen
  cases m'.stackBounds.result with
  | error f => exact hb
  | ok bounds =>
    dsimp only [Call.after]
    split_ifs
    · exact hb
    · exact hb.of_checked (hb.read _ _)

/-- Writing bytes is one call at most, behind the check of their place. -/
lemma of_writeAt (h : Calls c m n m') (address : Number) (bytes : Bytes) :
    Calls c m n (m'.writeAt address bytes).machine :=
  h.of_checked (h.write _ _)

/-- Writing a register is one call at most, with a value that fits. -/
lemma of_writeRegister (h : Calls c m n m') (register : String) (value : Number) :
    Calls c m n (m'.writeRegister register value).machine := by
  unfold writeRegister
  split
  · exact h
  · split_ifs with hv
    · exact h.setRegister _ _ hv
    · exact h

end Calls

end Machine

end DebugWire
