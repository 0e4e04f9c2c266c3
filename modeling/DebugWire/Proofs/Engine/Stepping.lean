import DebugWire.Proofs.Breakpoints
import DebugWire.Proofs.Engine.Emission
import DebugWire.Proofs.Engine.Handling
import Mathlib.Data.List.Induction

set_option relaxedAutoImplicit false
set_option autoImplicit false

/-!
# Stepping

On a machine without overrides, an instruction is executed where a step is *honoured* and nowhere
else, one at a time. A step is honoured by an idle engine, unless it looks at the breakpoints and
there is one at the next instruction. There is a breakpoint at an address if the commands have set
it there and not cleared it since. The count of the machine is the number of steps that were
honoured.

## Main definitions

* `DebugWire.Engine.Armed` — the breakpoints by the commands that were given.
* `DebugWire.Engine.honours` — the steps that an engine honours.
* `DebugWire.Engine.honoured` — their number over a list of commands.
* `DebugWire.Engine.Gated` — what stepping an engine comes to.

## Main results

* `DebugWire.Engine.contains_handle` — the breakpoints after one command.
* `DebugWire.Engine.steps_handle` — the count after one command.
* `DebugWire.Engine.gated_run_start` — after any commands.
-/

namespace DebugWire.Engine

/-! ## Breakpoints -/

/-- The breakpoints that a command leaves when it is applied. -/
def breakpointsAfter (s : Breakpoints) : Command → Breakpoints
  | .setBreakpoint address => (s.set address).toOption.getD s
  | .clearBreakpoint address => (s.clear address).toOption.getD s
  | _ => s

variable {e : Engine}

/-- Taking up a call that runs the program leaves the breakpoints alone. -/
lemma breakpoints_running (e : Engine) (call : Machine.Call RunResult) :
    (e.running call).engine.breakpoints = e.breakpoints := by
  unfold running
  cases call.result with
  | ok result => cases result <;> rfl
  | error f =>
    dsimp only
    split_ifs <;> rfl

/-- Stepping leaves the breakpoints alone, whether it stops at one or not. -/
lemma breakpoints_stepOnce (e : Engine) (checkBreakpoints : Bool) :
    (e.stepOnce checkBreakpoints).engine.breakpoints = e.breakpoints := by
  unfold stepOnce
  split
  · rfl
  · refine took_engine (P := fun e' => e'.breakpoints = e.breakpoints) rfl fun regs => ?_
    dsimp only
    split_ifs
    · rfl
    · exact breakpoints_running _ _

/-- Only setting and clearing change the breakpoints.

**Proof sketch.** One case for each command; the calls of the machine leave the breakpoints,
whatever they come to. -/
lemma breakpoints_apply (e : Engine) (c : Command) :
    (e.apply c).engine.breakpoints = breakpointsAfter e.breakpoints c := by
  cases c with
  | step => exact breakpoints_stepOnce e true
  | stepIgnoringBreakpoints => exact breakpoints_stepOnce e false
  | stop => rfl
  | setBreakpoint address =>
    simp only [apply, withBreakpoints, breakpointsAfter]
    cases e.breakpoints.set address <;> rfl
  | clearBreakpoint address =>
    simp only [apply, withBreakpoints, breakpointsAfter]
    cases e.breakpoints.clear address <;> rfl
  | requestDump | requestMemory first limit | requestStack | setMemory address bytes
  | setRegister register value =>
    exact took_engine (P := fun e' => e'.breakpoints = e.breakpoints) rfl fun _ => rfl
  | inputKey key | inputString text => exact breakpoints_running _ _

/-- The breakpoints after a command are those that it sets or clears, and the same for every other
command. -/
lemma breakpoints_handle (he : e.terminated = false) (c : Command) :
    (e.handle c).1.breakpoints = breakpointsAfter e.breakpoints c := by
  simp only [handle, he, Bool.false_eq_true, if_false, handleLive, ← breakpoints_apply]
  cases (e.apply c).fault with
  | none => rfl
  | some f =>
    simp only [recover]
    split_ifs <;> rfl

/-- A step leaves the breakpoints alone, be the engine live or not. -/
lemma breakpoints_handle_step (e : Engine) : (e.handle .step).1.breakpoints = e.breakpoints := by
  cases ht : e.terminated with
  | true => exact congrArg breakpoints (happen_of_terminated ht (.command .step))
  | false => exact breakpoints_handle ht .step

/-- **One command** puts a breakpoint at an address by setting it there, if the address has sixteen
bits, and takes it away by clearing it there.

**Proof sketch.** Setting and clearing are those of the set, which refuse a number that is no
address: it is not put in, and it was no member to be taken out. Every other command leaves the
breakpoints. -/
theorem contains_handle (he : e.terminated = false) (c : Command) (x : Number) :
    (e.handle c).1.breakpoints.contains x = true ↔
      (c = .setBreakpoint x ∧ (x.within? 0xffff).isSome = true) ∨
        (e.breakpoints.contains x = true ∧ c ≠ .clearBreakpoint x) := by
  rw [breakpoints_handle he]
  cases c with
  | setBreakpoint a =>
    simp only [breakpointsAfter, Command.setBreakpoint.injEq, ne_eq, reduceCtorEq,
      not_false_eq_true, and_true]
    cases hs : e.breakpoints.set a with
    | ok s =>
      have hx := Breakpoints.contains_of_set (x := x) hs
      have ha := Breakpoints.isSome_within?_of_set hs
      refine hx.trans (or_congr_left ⟨?_, fun h => h.1.symm⟩)
      rintro rfl
      exact ⟨rfl, ha⟩
    | error f =>
      have ha := Breakpoints.within?_of_set_error hs
      refine (or_iff_right ?_).symm
      rintro ⟨rfl, hx⟩
      rw [ha] at hx
      cases hx
  | clearBreakpoint a =>
    simp only [breakpointsAfter, reduceCtorEq, false_and, false_or, ne_eq,
      Command.clearBreakpoint.injEq]
    cases hs : e.breakpoints.clear a with
    | ok s => exact (Breakpoints.contains_of_clear hs).trans (by rw [and_comm, ne_comm])
    | error f =>
      refine ⟨fun hx => ⟨hx, ?_⟩, fun hx => hx.1⟩
      rintro rfl
      have hn := Breakpoints.contains_of_clear_error hs
      rw [show e.breakpoints.contains a = true from hx] at hn
      cases hn
  | step | stepIgnoringBreakpoints | stop | requestDump | requestMemory first limit | requestStack
  | setMemory address bytes | setRegister register value | inputKey key | inputString text =>
    simp [breakpointsAfter]

/-- There is a breakpoint at an address by the commands given: one of them has set it, and none
behind that one has cleared it. No breakpoint is set at a number that is no 16-bit address. -/
def Armed (cs : List Command) (x : Number) : Prop :=
  (x.within? 0xffff).isSome = true ∧
    ∃ before after, cs = before ++ .setBreakpoint x :: after ∧ .clearBreakpoint x ∉ after

/-- Without commands there is no breakpoint, at whatever address. -/
lemma not_armed_nil (x : Number) : ¬ Armed [] x := by
  rintro ⟨-, before, after, h, -⟩
  exact List.append_ne_nil_of_right_ne_nil before (List.cons_ne_nil _ _) h.symm

/-- There is a breakpoint behind one more command if that command sets it, or if it was there and
that command does not clear it. -/
lemma armed_append_singleton_iff {cs : List Command} {c : Command} {x : Number} :
    Armed (cs ++ [c]) x ↔
      (c = .setBreakpoint x ∧ (x.within? 0xffff).isSome = true) ∨
        (Armed cs x ∧ c ≠ .clearBreakpoint x) := by
  rw [Armed, Armed, Breakpoints.exists_append_singleton_iff, and_or_left, and_comm (b := c = _),
    and_assoc]

/-! ## Steps -/

/-- The steps that an engine *honours*: those of either kind while it is idle, unless one looks at
the breakpoints and there is one at the next instruction. -/
def honours (e : Engine) : Command → Bool
  | .step => decide (e.state = .idle) && !e.breakpoints.contains e.machine.regs.pc
  | .stepIgnoringBreakpoints => decide (e.state = .idle)
  | _ => false

/-- The number of steps that are honoured when commands are given one by one. -/
def honoured (e : Engine) : List Command → ℕ
  | [] => 0
  | c :: cs => (e.honours c).toNat + honoured (e.handle c).1 cs

/-- Only an idle engine honours a step, as it is refused while the program waits and ignored behind
the end. -/
lemma idle_of_honours {c : Command} (h : e.honours c = true) : e.state = .idle := by
  cases c with
  | step => exact of_decide_eq_true (Bool.and_eq_true_iff.1 h).1
  | stepIgnoringBreakpoints => exact of_decide_eq_true h
  | _ => cases h

/-- An idle engine takes commands, because its session has not ended. -/
lemma terminated_of_idle (h : e.state = .idle) : e.terminated = false :=
  congrArg EngineState.terminal h

/-- An engine that waits for input takes commands, because its session has not ended. -/
lemma terminated_of_suspended {kind : InputKind} (h : e.state = .suspended kind) :
    e.terminated = false :=
  congrArg EngineState.terminal h

/-- An engine that takes commands is idle or waits. -/
lemma idle_or_suspended (h : e.terminated = false) :
    e.state = .idle ∨ ∃ kind, e.state = .suspended kind := by
  unfold terminated at h
  cases hs : e.state with
  | idle => exact .inl rfl
  | suspended kind => exact .inr ⟨kind, rfl⟩
  | finished reason | stopped =>
    rw [hs] at h
    cases h

/-- A call that prints nothing is taken up by the work with its result, on the machine that it
leaves. -/
lemma took_done_machine {α : Type} (e : Engine) (m : Machine) (a : α) (next : Engine → α → Work) :
    e.took (.done m a) next = next { e with machine := m } a := by
  simp only [took, Machine.Call.done, relayed, Relay.events, List.filter_nil, List.map_nil,
    ite_self, List.nil_append]

/-- A call that prints nothing and leaves the machine as it is is taken up by the work with its
result. -/
lemma took_done {α : Type} (e : Engine) (a : α) (next : Engine → α → Work) :
    e.took (.done e.machine a) next = next e a :=
  took_done_machine e e.machine a next

/-- Stepping an idle engine on a plain machine executes one instruction, unless there is a
breakpoint to stop at. -/
lemma stepOnce_of_idle (hm : e.machine.Plain) (hs : e.state = .idle) (checkBreakpoints : Bool) :
    e.stepOnce checkBreakpoints =
      if checkBreakpoints && e.breakpoints.contains e.machine.regs.pc then
        e.answer (.breakpointHit e.machine.regs.pc)
      else e.running e.machine.execute := by
  rw [stepOnce, hs]
  dsimp only
  rw [hm.registers_eq, took_done, hm.step_eq]

/-- **A step that is honoured** executes one instruction.

**Proof sketch.** An engine that honours a step is idle, and the step gets past the breakpoints:
either there is none at the counter, or they are not looked at. -/
lemma machine_handle_of_honours (hm : e.machine.Plain) {c : Command} (hc : e.honours c = true) :
    (e.handle c).1.machine = e.machine.execute.machine := by
  have hs := idle_of_honours hc
  rw [machine_handle (terminated_of_idle hs)]
  cases c with
  | step =>
    have hb : e.breakpoints.contains e.machine.regs.pc = false := by
      rw [honours, hs] at hc
      simpa using hc
    rw [apply, stepOnce_of_idle hm hs, hb, Bool.and_false, if_neg Bool.false_ne_true,
      machine_running]
  | stepIgnoringBreakpoints =>
    rw [apply, stepOnce_of_idle hm hs, Bool.false_and, if_neg Bool.false_ne_true, machine_running]
  | _ => cases hc

/-- **A step at a breakpoint** tells of it and changes nothing. -/
lemma handle_step_of_contains (hm : e.machine.Plain) (hs : e.state = .idle)
    (hb : e.breakpoints.contains e.machine.regs.pc = true) :
    (e.handle .step).1 = e ∧ Emission.events (e.handle .step).2 =
      [.breakpointHit e.machine.regs.pc] := by
  refine handle_of_apply_eq_answer (terminated_of_idle hs) ?_
  rw [apply, stepOnce_of_idle hm hs, hb, Bool.and_true, if_pos rfl]

/-- **A step while the engine waits** is refused: one error output tells so, and the engine is the
same afterwards. -/
lemma handle_step_of_suspended {kind : InputKind} (hs : e.state = .suspended kind) {c : Command}
    (hc : c.isStep = true) :
    (e.handle c).1 = e ∧
      Emission.events (e.handle c).2 = [.errorOutput (Fault.stepWhileWaiting kind).message] := by
  refine handle_of_apply_eq_refuse (terminated_of_suspended hs) ?_ nofun
  cases c with
  | step | stepIgnoringBreakpoints => exact stepOnce_of_suspended hs _
  | _ => cases hc

/-- Handling two commands that are applied alike has the same effects. -/
lemma handle_congr {c c' : Command} (h : e.terminated = false → e.apply c = e.apply c') :
    (e.handle c).1 = (e.handle c').1 ∧
      Emission.events (e.handle c).2 = Emission.events (e.handle c').2 := by
  cases ht : e.terminated with
  | true =>
    simp only [handle, ht, if_true, true_and]
    rfl
  | false =>
    simp only [handle, ht, Bool.false_eq_true, if_false, handleLive, h ht, true_and]
    split_ifs <;> rfl

/-- **Away from breakpoints** steps of both kinds have the same effects. -/
lemma handle_step_eq (hm : e.machine.Plain)
    (hb : e.state = .idle → e.breakpoints.contains e.machine.regs.pc = false) :
    (e.handle .step).1 = (e.handle .stepIgnoringBreakpoints).1 ∧
      Emission.events (e.handle .step).2 =
        Emission.events (e.handle .stepIgnoringBreakpoints).2 := by
  refine handle_congr fun ht => ?_
  rcases idle_or_suspended ht with hs | ⟨kind, hs⟩
  · simp only [apply, stepOnce_of_idle hm hs, hb hs, Bool.and_false]
  · simp only [apply, stepOnce_of_suspended hs]

/-- A step that is not honoured leaves the engine as it is.

**Proof sketch.** The engine has ended, it waits for input, or there is a breakpoint at the counter.
In each case the step changes nothing. -/
lemma handle_of_not_honours (hm : e.machine.Plain) {c : Command} (hstep : c.isStep = true)
    (hc : e.honours c = false) : (e.handle c).1 = e := by
  cases ht : e.terminated with
  | true => exact happen_of_terminated ht (.command c)
  | false =>
    rcases idle_or_suspended ht with hs | ⟨kind, hs⟩
    · cases c with
      | step =>
        refine (handle_step_of_contains hm hs ?_).1
        rw [honours, hs] at hc
        simpa using hc
      | stepIgnoringBreakpoints =>
        rw [honours, hs] at hc
        cases hc
      | _ => cases hstep
    · exact (handle_step_of_suspended hs hstep).1

/-! ## Counting -/

/-- **One command** to an engine on a plain machine adds one to its count if it is a step that is
honoured, and nothing otherwise.

**Proof sketch.** A step that is honoured executes one instruction. All other commands make only
calls that run no program, and those leave the count. -/
theorem steps_handle (hm : e.machine.Plain) (c : Command) :
    (e.handle c).1.machine.Plain ∧
      (e.handle c).1.machine.steps = e.machine.steps + (e.honours c).toNat := by
  cases hc : e.honours c with
  | true =>
    obtain ⟨hplans, hsteps⟩ := Machine.Plain.execute_machine e.machine
    rw [machine_handle_of_honours hm hc]
    exact ⟨hplans.trans hm, hsteps⟩
  | false =>
    cases hstep : c.isStep with
    | true =>
      rw [handle_of_not_honours hm hstep hc]
      exact ⟨hm, rfl⟩
    | false =>
      obtain ⟨n, hcalls⟩ := calls_handle e c
      obtain rfl := hcalls.eq_zero hstep
      exact hcalls.plain hm

/-- **Commands one by one** add to the count of a plain machine the steps that are honoured. -/
theorem steps_run (hm : e.machine.Plain) (cs : List Command) :
    (e.run (cs.map .command)).1.machine.Plain ∧
      (e.run (cs.map .command)).1.machine.steps = e.machine.steps + e.honoured cs := by
  induction cs generalizing e with
  | nil => exact ⟨hm, rfl⟩
  | cons c cs ih =>
    obtain ⟨hp, hs⟩ := steps_handle hm c
    obtain ⟨hp', hs'⟩ := ih hp
    exact ⟨hp', by rw [List.map_cons, run, happen, hs', hs, honoured, Nat.add_assoc]⟩

/-- The engine after one more command has handled it in the state that the others have left. -/
lemma run_append_command (e : Engine) (cs : List Command) (c : Command) :
    (e.run ((cs ++ [c]).map .command)).1 = ((e.run (cs.map .command)).1.handle c).1 := by
  rw [List.map_append, run_append]
  rfl

/-- **The breakpoints of a session** that takes commands are those that the commands have set and
not cleared.

**Proof sketch.** By induction on the commands from the back, with `contains_handle` for the last
one. A session that takes commands after the last one took that one too. -/
theorem contains_run_start_iff (m : Machine) (logCommands : Bool) (cs : List Command) {e : Engine}
    (he : ((start m logCommands).run (cs.map .command)).1 = e) (ht : e.terminated = false)
    (x : Number) :
    e.breakpoints.contains x = true ↔ Armed cs x := by
  induction cs using List.reverseRecOn generalizing e with
  | nil =>
    subst he
    refine iff_of_false (fun hx => ?_) (not_armed_nil x)
    obtain ⟨n, hn, -⟩ := Breakpoints.contains_iff.1 hx
    cases hn
  | append_singleton cs c ih =>
    rw [run_append_command] at he
    have hbefore : (run (start m logCommands) (cs.map .command)).1.terminated = false := by
      refine Bool.eq_false_iff.2 fun hn => ?_
      have hsame := happen_of_terminated hn (.command c)
      rw [happen, he] at hsame
      rw [hsame, hn] at ht
      cases ht
    rw [← he, contains_handle hbefore, ih rfl hbefore, armed_append_singleton_iff]

/-! ## What stepping comes to -/

/-- What stepping comes to for an engine that is reached from the start, on a machine, by commands.
-/
structure Gated (m : Machine) (logCommands : Bool) (cs : List Command) (e : Engine) : Prop where
  /-- The count of the machine has grown by the steps that were honoured. -/
  count : e.machine.steps = m.steps + (start m logCommands).honoured cs
  /-- A step that is honoured executes one instruction. -/
  executes : ∀ c, e.honours c = true → (e.handle c).1.machine = e.machine.execute.machine
  /-- No other command executes any. -/
  refrains : ∀ c, e.honours c = false → (e.handle c).1.machine.steps = e.machine.steps
  /-- A step of an idle engine is honoured if it ignores breakpoints or there is none at the next
  instruction. -/
  honours : e.state = .idle →
    e.honours .stepIgnoringBreakpoints = true ∧
      (e.honours .step = true ↔ ¬ Armed cs e.machine.regs.pc)
  /-- At a breakpoint an idle engine stays as it is and tells of it, however often it is to step. -/
  stays : e.state = .idle → Armed cs e.machine.regs.pc → ∀ n,
    (e.run (List.replicate n (.command .step))).1 = e ∧
      Emission.events (e.run (List.replicate n (.command .step))).2 =
        List.replicate n (.breakpointHit e.machine.regs.pc)
  /-- Away from breakpoints steps of both kinds have the same effects. -/
  same : ¬ Armed cs e.machine.regs.pc →
    (e.handle .step).1 = (e.handle .stepIgnoringBreakpoints).1 ∧
      Emission.events (e.handle .step).2 = Emission.events (e.handle .stepIgnoringBreakpoints).2
  /-- While it waits for input, an engine refuses a step with one message and stays as it is. -/
  refuses : ∀ kind, e.state = .suspended kind → ∀ c : Command, c.isStep = true →
    (e.handle c).1 = e ∧
      Emission.events (e.handle c).2 = [.errorOutput (Fault.stepWhileWaiting kind).message]

/-- A happening that leaves an engine as it is and gives one event gives it as often as it is
repeated. -/
lemma run_replicate {x : Happening} {ev : Event} (he : (e.happen x).1 = e)
    (hev : Emission.events (e.happen x).2 = [ev]) (n : ℕ) :
    (e.run (List.replicate n x)).1 = e ∧
      Emission.events (e.run (List.replicate n x)).2 = List.replicate n ev := by
  induction n with
  | zero => exact ⟨rfl, rfl⟩
  | succ n ih =>
    simp only [List.replicate_succ, run, he, Emission.events_append, hev, ih, List.singleton_append,
      and_self]

/-- **Stepping is gated and exact**: after any commands given to a session on a plain machine, an
instruction is executed for a step that is honoured and for nothing else, the breakpoints that count
are those the commands have set and not cleared, and a step that is not honoured is answered and
changes nothing.

**Proof sketch.** The machine stays plain by `steps_run`, and the breakpoints are known by
`contains_run_start_iff`; each law is then one about handling a single command. -/
theorem gated_run_start (m : Machine) (hm : m.Plain) (logCommands : Bool) (cs : List Command) :
    Gated m logCommands cs ((start m logCommands).run (cs.map .command)).1 := by
  obtain ⟨hp, hcount⟩ := steps_run (e := start m logCommands) hm cs
  have hbreak := contains_run_start_iff m logCommands cs rfl
  generalize ((start m logCommands).run (cs.map .command)).1 = e at hp hcount hbreak ⊢
  have hpc (hs : e.state = .idle) := hbreak (terminated_of_idle hs) e.machine.regs.pc
  exact {
    count := hcount
    executes := fun c hc => machine_handle_of_honours hp hc
    refrains := fun c hc => by rw [(steps_handle hp c).2, hc]; rfl
    honours := fun hs => by
      refine ⟨by rw [Engine.honours, hs]; rfl, ?_⟩
      rw [← hpc hs, Engine.honours, hs]
      simp
    stays := fun hs ha n =>
      have h := handle_step_of_contains hp hs ((hpc hs).2 ha)
      run_replicate (x := .command .step) h.1 h.2 n
    same := fun ha => handle_step_eq hp fun hs => Bool.eq_false_iff.2 fun hb => ha ((hpc hs).1 hb)
    refuses := fun _ hs _ hc => handle_step_of_suspended hs hc }

/-- A program that is stepped up to a breakpoint, held there, and taken past it to where it waits
for a key. -/
theorem gated_run_start_of_breakpoint :
    Machine.Plain (.initial [(0, .inc), (1, .readKey)] 16 {}) ∧
    ∃ e, ((start (.initial [(0, .inc), (1, .readKey)] 16 {}) false).run ([.setBreakpoint 1,
        .step, .step, .step, .stepIgnoringBreakpoints, .step].map .command)).1 = e ∧
      e.state = .suspended .key ∧ e.machine.steps = 2 ∧
      Gated (.initial [(0, .inc), (1, .readKey)] 16 {}) false
        [.setBreakpoint 1, .step, .step, .step, .stepIgnoringBreakpoints, .step] e :=
  ⟨rfl, _, rfl, by decide, by decide,
    gated_run_start (.initial [(0, .inc), (1, .readKey)] 16 {}) rfl _ _⟩

end DebugWire.Engine
