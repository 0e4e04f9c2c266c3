import DebugWire.Proofs.Engine.Suspension
import DebugWire.Proofs.Machine.Calls

set_option relaxedAutoImplicit false
set_option autoImplicit false

/-!
# What a command does to the machine

An engine touches its machine by the calls that the command stands for, and by no others.

## Main results

* `DebugWire.Engine.machine_handle` — after a command the machine is what the work has left.
* `DebugWire.Engine.calls_handle` — the calls of one command.
-/

namespace DebugWire.Engine

variable {e : Engine}

/-! ## The machine after parts of the work -/

/-- Work with the result of a call that leaves the machine alone leaves that of the call. -/
lemma machine_took {α : Type} {call : Machine.Call α} {next : Engine → α → Work}
    (h : ∀ a, (next { e with machine := call.machine } a).engine.machine = call.machine) :
    (e.took call next).engine.machine = call.machine :=
  took_engine (P := fun e' => e'.machine = call.machine) rfl h

/-- Taking up a call that runs the program leaves the machine of the call. -/
lemma machine_running (e : Engine) (call : Machine.Call RunResult) :
    (e.running call).engine.machine = call.machine := by
  unfold running
  cases call.result with
  | ok result => cases result <;> rfl
  | error f =>
    dsimp only
    split_ifs <;> rfl

/-- Taking up a fault leaves the machine alone: only the state of the engine and what it tells may
change. -/
lemma machine_recover (e : Engine) (f : Fault) : (e.recover f).1.machine = e.machine := by
  unfold recover
  split_ifs <;> rfl

/-- After a command, the machine is the one that the work has left. -/
lemma machine_handle (he : e.terminated = false) (c : Command) :
    (e.handle c).1.machine = (e.apply c).engine.machine := by
  simp only [handle, he, Bool.false_eq_true, if_false, handleLive]
  cases (e.apply c).fault with
  | none => rfl
  | some f => exact machine_recover _ f

/-! ## Calls -/

/-- A step makes one call of that kind at most.

**Proof sketch.** The registers are always read first. The machine is told to step only if that
works and there is no breakpoint to stop at. -/
lemma calls_stepOnce (e : Engine) {c : Command} (hc : c.isStep = true) (checkBreakpoints : Bool) :
    ∃ n, Machine.Calls c e.machine n (e.stepOnce checkBreakpoints).engine.machine := by
  have hr : Machine.Calls c e.machine 0 e.machine.registers.machine := Machine.Calls.none.registers
  unfold stepOnce
  split
  · exact ⟨0, .none⟩
  · refine took_engine (P := fun e' => ∃ n, Machine.Calls c e.machine n e'.machine) ⟨0, hr⟩
      fun regs => ?_
    dsimp only
    split_ifs
    · exact ⟨0, hr⟩
    · exact ⟨1, by rw [machine_running]; exact hr.step hc⟩

/-- Input is handed to the machine once at most.

**Proof sketch.** Input of the kind that is asked for is handed over once, as the command has it;
other input never reaches the machine. -/
lemma calls_input (e : Engine) {c : Command} {i : Input} (hc : c.input? = some i) :
    Machine.Calls c e.machine 0 (e.input i).engine.machine := by
  by_cases hp : e.relay.pending = some i.kind
  · rw [input_of_pending_eq hp, machine_running]
    cases i with
    | key key =>
      have hk : c = .inputKey key := by cases c <;> simp_all [Command.input?]
      exact Machine.Calls.none.supplyKey key hk
    | string text =>
      have ht : c = .inputString text := by cases c <;> simp_all [Command.input?]
      exact Machine.Calls.none.supplyString text ht
  · rw [input_of_pending_ne hp]
    exact .none

/-- Applying a command makes calls that it may make.

**Proof sketch.** One case for each command: the queries and stores make one call of their own,
which is none that runs the program, and a change of the breakpoints makes none. -/
lemma calls_apply (e : Engine) (c : Command) :
    ∃ n, Machine.Calls c e.machine n (e.apply c).engine.machine := by
  cases c with
  | step => exact calls_stepOnce e rfl true
  | stepIgnoringBreakpoints => exact calls_stepOnce e rfl false
  | stop => exact ⟨0, .none⟩
  | setBreakpoint address | clearBreakpoint address =>
    simp only [apply, withBreakpoints]
    split <;> exact ⟨0, .none⟩
  | requestDump =>
    rw [apply, machine_took fun _ => rfl]
    exact ⟨0, Machine.Calls.none.registers⟩
  | requestMemory first limit =>
    rw [apply, machine_took fun _ => rfl]
    exact ⟨0, Machine.Calls.none.of_readRange first limit⟩
  | requestStack =>
    rw [apply, machine_took fun _ => rfl]
    exact ⟨0, Machine.Calls.none.of_readStack⟩
  | setMemory address bytes =>
    rw [apply, machine_took fun _ => rfl]
    exact ⟨0, Machine.Calls.none.of_writeAt address bytes⟩
  | setRegister register value =>
    rw [apply, machine_took fun _ => rfl]
    exact ⟨0, Machine.Calls.none.of_writeRegister register value⟩
  | inputKey key => exact ⟨0, calls_input e rfl⟩
  | inputString text => exact ⟨0, calls_input e rfl⟩

/-- **One command** makes calls of the machine that it may make, and no others. -/
theorem calls_handle (e : Engine) (c : Command) :
    ∃ n, Machine.Calls c e.machine n (e.handle c).1.machine := by
  cases he : e.terminated with
  | true =>
    rw [handle, if_pos he]
    exact ⟨0, .none⟩
  | false =>
    rw [machine_handle he]
    exact calls_apply e c

end DebugWire.Engine
