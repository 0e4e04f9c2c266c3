import DebugWire.Engine.Basic
import Mathlib.Tactic.Lemma
import Mathlib.Tactic.SplitIfs

set_option relaxedAutoImplicit false
set_option autoImplicit false

/-!
# Waiting for input

That the program waits for input is kept twice: in the state of the engine and as the open request
of the relay. The two are in step as long as the machine takes the input that is given to it. If it
throws an input back as not allowed, the request is closed but the engine goes on waiting: no step
and no input gets through any more, until the session ends.

## Main definitions

* `DebugWire.Engine.InStep` — the state and the open request say the same.
* `DebugWire.Engine.bounces` — the machine throws an input back that the relay lets through.
* `DebugWire.Engine.everBounces` — that happens in a run.
* `DebugWire.Engine.Stuck` — the engine waits and no request is open.

## Main results

* `DebugWire.Engine.happen_of_inStep`, `DebugWire.Engine.happen_of_stuck` — one happening.
* `DebugWire.Engine.run_of_inStep` — a run.
* `DebugWire.Engine.inStep_run_start_iff` — when the two are in step, and what follows.
-/

namespace DebugWire

/-- The input that a command gives. -/
def Command.input? : Command → Option Input
  | inputKey key => some (.key key)
  | inputString text => some (.string text)
  | _ => none

/-- Whether a command lets the program go on: a step, or input. -/
def Command.goesOn : Command → Bool
  | step | stepIgnoringBreakpoints | inputKey _ | inputString _ => true
  | _ => false

namespace Engine

/-! ## The two records -/

/-- The state and the open request are *in step*: the engine waits for input of a kind exactly if
input of that kind is asked for, and is idle exactly if none is. -/
structure InStep (e : Engine) : Prop where
  /-- Waiting for input of a kind. -/
  suspended : ∀ kind, e.state = .suspended kind ↔ e.relay.pending = some kind
  /-- Waiting for none. -/
  idle : e.state = .idle ↔ e.relay.pending = none

/-- The engine is *stuck*: it waits for input, and none is asked for. -/
def Stuck (e : Engine) : Prop := (∃ kind, e.state = .suspended kind) ∧ e.relay.pending = none

/-- An idle engine without a request is in step. -/
lemma InStep.of_idle {e : Engine} (hs : e.state = .idle) (hp : e.relay.pending = none) :
    InStep e where
  suspended kind := by simp [hs, hp]
  idle := by simp [hs, hp]

/-- An engine that waits for what is asked for is in step. -/
lemma InStep.of_suspended {e : Engine} {kind : InputKind} (hs : e.state = .suspended kind)
    (hp : e.relay.pending = some kind) : InStep e where
  suspended kind' := by simp [hs, hp]
  idle := by simp [hs, hp]

/-- Whether an engine is in step depends on its state and its relay only. -/
lemma InStep.congr {e e' : Engine} (h : InStep e) (hs : e'.state = e.state)
    (hr : e'.relay = e.relay) :
    InStep e' where
  suspended kind := by rw [hs, hr, h.suspended]
  idle := by rw [hs, hr, h.idle]

/-- An engine in step has not come to its end. -/
lemma InStep.not_terminated {e : Engine} (h : InStep e) : e.terminated = false := by
  cases hp : e.relay.pending with
  | none => rw [terminated, h.idle.2 hp]; rfl
  | some kind => rw [terminated, (h.suspended kind).2 hp]; rfl

/-- A stuck engine has not come to its end. -/
lemma Stuck.not_terminated {e : Engine} (h : Stuck e) : e.terminated = false := by
  obtain ⟨⟨kind, hs⟩, -⟩ := h
  rw [terminated, hs]
  rfl

/-- A stuck engine is not in step, since the program waits for input of which the relay knows
nothing. -/
lemma Stuck.not_inStep {e : Engine} (h : Stuck e) : ¬ InStep e := by
  obtain ⟨⟨kind, hs⟩, hp⟩ := h
  intro hi
  rw [hi.idle.2 hp] at hs
  cases hs

/-- The engine with its open request closed. -/
def answered (e : Engine) : Engine := { e with relay := { e.relay with pending := none } }

/-! ## What the parts of the work do to them -/

/-- What holds of the engine when a call of the machine fails, and when the work goes on with its
result, holds of it after the work. -/
lemma took_engine {α : Type} {P : Engine → Prop} {e : Engine} {call : Machine.Call α}
    {next : Engine → α → Work} (hf : P { e with machine := call.machine })
    (hn : ∀ a, P (next { e with machine := call.machine } a).engine) :
    P (e.took call next).engine := by
  unfold took
  cases call.result with
  | ok a => exact hn a
  | error f => exact hf

/-- Taking up a fault ends the session or leaves the engine as it is. -/
lemma recover_cases (e : Engine) (f : Fault) :
    (e.recover f).1.terminated = true ∨ (e.recover f).1 = e := by
  by_cases hf : f.kind = .crash
  · exact .inl (by rw [recover, if_pos hf]; rfl)
  · exact .inr (by rw [recover, if_neg hf])

/-- Handling a command comes to what applying it comes to, unless a fault ends the session. -/
lemma handle_cases {e : Engine} (c : Command) (h : e.terminated = false) :
    (e.handle c).1.terminated = true ∨ (e.handle c).1 = (e.apply c).engine := by
  simp only [handle, h, Bool.false_eq_true, if_false, handleLive]
  cases (e.apply c).fault with
  | none => exact .inr rfl
  | some f => exact recover_cases _ f

/-- A call that the machine throws back changes neither the state nor the relay. -/
lemma running_of_violation (e : Engine) {call : Machine.Call RunResult} {f : Fault}
    (h : call.result = .error f) (hf : f.kind = .violation) :
    (e.running call).engine.state = e.state ∧ (e.running call).engine.relay = e.relay := by
  rw [running, h]
  dsimp only
  rw [if_pos hf]
  exact ⟨rfl, rfl⟩

/-- Any other call that runs the program ends the session or leaves an engine without a request in
step.

**Proof sketch.** By cases on what the call comes to: going on leaves an idle engine, input that is
asked for suspends it, with the request kept, and everything else ends the session. -/
lemma running_of_not_violation {e : Engine} {call : Machine.Call RunResult}
    (hp : e.relay.pending = none) (h : ¬ ∃ f, call.result = .error f ∧ f.kind = .violation) :
    (e.running call).engine.terminated = true ∨ InStep (e.running call).engine := by
  unfold running
  cases hr : call.result with
  | ok result =>
    cases result with
    | ok => exact .inr (.of_idle rfl hp)
    | awaiting kind => exact .inr (.of_suspended rfl rfl)
    | halted => exact .inl rfl
    | crashed reason => exact .inl rfl
  | error f =>
    dsimp only
    rw [if_neg fun hf => h ⟨f, hr, hf⟩]
    exact .inl rfl

/-- A suspended engine refuses to step, whether the step looks at the breakpoints or not. -/
lemma stepOnce_of_suspended {e : Engine} {kind : InputKind} (h : e.state = .suspended kind)
    (checkBreakpoints : Bool) :
    e.stepOnce checkBreakpoints = e.refuse (.stepWhileWaiting kind) := by
  rw [stepOnce, h]

/-- Input of a kind that is not asked for is refused. -/
lemma input_of_pending_ne {e : Engine} {i : Input} (h : e.relay.pending ≠ some i.kind) :
    e.input i = e.refuse (.unexpectedInput i.kind e.relay.pending) := by
  have hr : e.relay.refusal i.kind = some (.unexpectedInput i.kind e.relay.pending) := if_neg h
  simp only [input, Relay.supply, hr, running, Machine.Call.fault, relayed, Relay.events,
    List.filter_nil, List.map_nil, ite_self, refuse]
  rfl

/-- Input of the kind that is asked for closes the request and is given to the machine. -/
lemma input_of_pending_eq {e : Engine} {i : Input} (h : e.relay.pending = some i.kind) :
    e.input i = e.answered.running (i.deliver e.machine) := by
  have hr : e.relay.refusal i.kind = none := if_pos h
  simp only [input, Relay.supply, hr]
  rfl

/-- A command gives input, is a step, or does not run the program: then it ends the session or
changes neither the state nor the relay.

**Proof sketch.** One case for each command. Queries and stores call the machine and leave the state
and the relay, whether they fail or not. -/
lemma apply_cases (e : Engine) (c : Command) :
    (∃ i, c.input? = some i ∧ e.apply c = e.input i) ∨
    (c.input? = none ∧ ∃ checkBreakpoints, e.apply c = e.stepOnce checkBreakpoints) ∨
    (c.input? = none ∧ c.goesOn = false ∧ ((e.apply c).engine.terminated = true ∨
      (e.apply c).engine.state = e.state ∧ (e.apply c).engine.relay = e.relay)) := by
  cases c with
  | inputKey key => exact .inl ⟨_, rfl, rfl⟩
  | inputString text => exact .inl ⟨_, rfl, rfl⟩
  | step => exact .inr (.inl ⟨rfl, true, rfl⟩)
  | stepIgnoringBreakpoints => exact .inr (.inl ⟨rfl, false, rfl⟩)
  | stop => exact .inr (.inr ⟨rfl, rfl, .inl rfl⟩)
  | setBreakpoint address | clearBreakpoint address =>
    refine .inr (.inr ⟨rfl, rfl, .inr ?_⟩)
    simp only [apply, withBreakpoints]
    split <;> exact ⟨rfl, rfl⟩
  | requestDump | requestMemory first limit | requestStack | setMemory address bytes
  | setRegister register value =>
    exact .inr
      (.inr ⟨rfl, rfl, .inr (took_engine (P := fun e' => e'.state = e.state ∧ e'.relay = e.relay)
      ⟨rfl, rfl⟩ fun _ => ⟨rfl, rfl⟩)⟩)

/-! ## One happening -/

/-- The machine *throws back* the input of a happening: the relay lets it through, and the machine
says that it is not allowed. -/
def bounces (e : Engine) : Happening → Bool
  | .command c =>
    match c.input? with
    | some i => e.relay.pending = some i.kind &&
        match (i.deliver e.machine).result with
        | .ok _ => false
        | .error f => f.kind = .violation
    | none => false
  | .report _ | .printed _ => false

/-- An input is thrown back if it is asked for and the machine says that it is not allowed. -/
lemma bounces_command_iff {e : Engine} {c : Command} {i : Input} (h : c.input? = some i) :
    e.bounces (.command c) = true ↔
      e.relay.pending = some i.kind ∧ ∃ f, (i.deliver e.machine).result = .error f ∧
        f.kind = .violation := by
  simp only [bounces, h, Bool.and_eq_true, decide_eq_true_eq]
  cases (i.deliver e.machine).result <;> simp

/-- Stepping an engine in step ends the session or leaves it in step.

**Proof sketch.** A suspended engine refuses the step. One that is idle has no request, and a
violation leaves it so; any other outcome is that of `running_of_not_violation`. -/
lemma stepOnce_of_inStep {e : Engine} (h : InStep e) (checkBreakpoints : Bool) :
    (e.stepOnce checkBreakpoints).engine.terminated = true ∨
      InStep (e.stepOnce checkBreakpoints).engine := by
  cases hp : e.relay.pending with
  | some kind =>
    rw [stepOnce_of_suspended ((h.suspended kind).2 hp)]
    exact .inr h
  | none =>
    have hs := h.idle.2 hp
    rw [stepOnce, hs]
    refine took_engine (P := fun e' => e'.terminated = true ∨ InStep e') (.inr (.of_idle hs hp))
      fun regs => ?_
    dsimp only
    split_ifs with hb
    · exact .inr (.of_idle hs hp)
    · by_cases hv : ∃ f, (Machine.step e.machine.registers.machine).result = .error f ∧
        f.kind = .violation
      · obtain ⟨f, hf, hk⟩ := hv
        obtain ⟨hs', hr'⟩ :=
          running_of_violation { e with machine := e.machine.registers.machine } hf hk
        exact .inr (.of_idle (hs'.trans hs) (by rw [hr', hp]))
      · exact running_of_not_violation hp hv

/-- Giving input to an engine in step ends the session or leaves it in step, unless the input is
thrown back, which leaves it stuck.

**Proof sketch.** Input that is not asked for changes nothing. Input that is asked for takes the
request away, and then the machine is called: if it throws the input back, the state is still that
of waiting, with no request. -/
lemma input_of_inStep {e : Engine} (h : InStep e) {c : Command} {i : Input}
    (hi : c.input? = some i) :
    (e.input i).engine.terminated = true ∨
    (e.bounces (.command c) = true ∧ Stuck (e.input i).engine) ∨
    (e.bounces (.command c) = false ∧ InStep (e.input i).engine) := by
  have hb := bounces_command_iff (e := e) hi
  by_cases hp : e.relay.pending = some i.kind
  · have hs := (h.suspended i.kind).2 hp
    rw [input_of_pending_eq hp]
    by_cases hv : ∃ f, (i.deliver e.machine).result = .error f ∧ f.kind = .violation
    · refine .inr (.inl ⟨hb.2 ⟨hp, hv⟩, ?_⟩)
      obtain ⟨f, hf, hk⟩ := hv
      obtain ⟨hs', hr'⟩ := running_of_violation e.answered hf hk
      exact ⟨⟨i.kind, hs'.trans hs⟩, by rw [hr']; rfl⟩
    · rcases running_of_not_violation (e := e.answered) rfl hv with ht | hi
      · exact .inl ht
      · exact .inr (.inr ⟨Bool.eq_false_iff.2 fun ht => hv (hb.1 ht).2, hi⟩)
  · rw [input_of_pending_ne hp]
    exact .inr (.inr ⟨Bool.eq_false_iff.2 fun ht => hp (hb.1 ht).1, h⟩)

/-- **One happening** to an engine in step ends the session or leaves it in step, unless it is input
that the machine throws back, which leaves the engine stuck.

**Proof sketch.** Reports and printed texts leave the engine. A command is one of the three kinds of
`apply_cases`. -/
theorem happen_of_inStep {e : Engine} (h : InStep e) (x : Happening) :
    (e.happen x).1.terminated = true ∨
    (e.bounces x = true ∧ Stuck (e.happen x).1) ∨
    (e.bounces x = false ∧ InStep (e.happen x).1) := by
  cases x with
  | report message => exact .inr (.inr ⟨rfl, h⟩)
  | printed p => exact .inr (.inr ⟨rfl, h⟩)
  | command c =>
    rw [happen]
    rcases handle_cases c h.not_terminated with ht | he
    · exact .inl ht
    · rw [he]
      rcases apply_cases e c with ⟨i, hi, ha⟩ | ⟨hi, b, ha⟩ | ⟨hi, -, hk⟩
      · rw [ha]
        exact input_of_inStep h hi
      · have hb : e.bounces (.command c) = false := by rw [bounces, hi]
        rw [ha]
        exact (stepOnce_of_inStep h b).imp_right fun hs => .inr ⟨hb, hs⟩
      · have hb : e.bounces (.command c) = false := by rw [bounces, hi]
        exact hk.imp_right fun hs => .inr ⟨hb, h.congr hs.1 hs.2⟩

/-- A stuck engine refuses every step and all input; any other command ends the session or changes
neither the state nor the relay. -/
lemma apply_of_stuck {e : Engine} (h : Stuck e) (c : Command) :
    (∃ f, f.kind = .violation ∧ e.apply c = e.refuse f) ∨
    (c.goesOn = false ∧ ((e.apply c).engine.terminated = true ∨
      (e.apply c).engine.state = e.state ∧ (e.apply c).engine.relay = e.relay)) := by
  obtain ⟨⟨kind, hs⟩, hp⟩ := h
  rcases apply_cases e c with ⟨i, -, ha⟩ | ⟨-, b, ha⟩ | ⟨-, hk⟩
  · rw [ha, input_of_pending_ne (by rw [hp]; exact nofun)]
    exact .inl ⟨_, rfl, rfl⟩
  · rw [ha, stepOnce_of_suspended hs]
    exact .inl ⟨_, rfl, rfl⟩
  · exact .inr hk

/-- **One happening** to a stuck engine ends the session or leaves it stuck.

**Proof sketch.** A stuck engine refuses steps and inputs, and by `apply_of_stuck` the other
commands end the session or leave state and relay. -/
theorem happen_of_stuck {e : Engine} (h : Stuck e) (x : Happening) :
    (e.happen x).1.terminated = true ∨ Stuck (e.happen x).1 := by
  cases x with
  | report message => exact .inr h
  | printed p => exact .inr h
  | command c =>
    rw [happen]
    rcases handle_cases c h.not_terminated with ht | he
    · exact .inl ht
    · rw [he]
      rcases apply_of_stuck h c with ⟨f, -, ha⟩ | ⟨-, ht | ⟨hs, hr⟩⟩
      · rw [ha]
        exact .inr h
      · exact .inl ht
      · exact .inr ⟨hs.symm ▸ h.1, hr.symm ▸ h.2⟩

/-- Nothing happens to an engine that has come to its end. -/
lemma happen_of_terminated {e : Engine} (h : e.terminated = true) (x : Happening) :
    (e.happen x).1 = e := by
  cases x with
  | report message => rfl
  | printed p => rfl
  | command c => simp only [happen, handle, h, if_true]

/-! ## Runs -/

/-- Whether the machine throws an input back at some point of a run. -/
def everBounces (e : Engine) : List Happening → Bool
  | [] => false
  | x :: xs => e.bounces x || everBounces (e.happen x).1 xs

/-- An engine that has come to its end stays as it is. -/
lemma run_of_terminated {e : Engine} (h : e.terminated = true) (xs : List Happening) :
    (e.run xs).1 = e := by
  induction xs with
  | nil => rfl
  | cons x xs ih =>
    simp only [run]
    rw [happen_of_terminated h, ih]

/-- A stuck engine stays stuck until the session ends. -/
lemma run_of_stuck {e : Engine} (h : Stuck e) (xs : List Happening) :
    (e.run xs).1.terminated = true ∨ Stuck (e.run xs).1 := by
  induction xs generalizing e with
  | nil => exact .inr h
  | cons x xs ih =>
    simp only [run]
    rcases happen_of_stuck h x with ht | hs
    · exact .inl ((congrArg terminated (run_of_terminated ht xs)).trans ht)
    · exact ih hs

/-- **A run** of an engine in step ends the session or leaves it in step, unless an input was thrown
back, which leaves it stuck.

**Proof sketch.** Induction on the happenings, each of which ends the session, throws input back or
leaves the engine in step. The first two cases stay as they are from then on. -/
theorem run_of_inStep {e : Engine} (h : InStep e) (xs : List Happening) :
    (e.run xs).1.terminated = true ∨
    (e.everBounces xs = true ∧ Stuck (e.run xs).1) ∨
    (e.everBounces xs = false ∧ InStep (e.run xs).1) := by
  induction xs generalizing e with
  | nil => exact .inr (.inr ⟨rfl, h⟩)
  | cons x xs ih =>
    simp only [run, everBounces]
    rcases happen_of_inStep h x with ht | ⟨hb, hs⟩ | ⟨hb, hs⟩
    · exact .inl ((congrArg terminated (run_of_terminated ht xs)).trans ht)
    · rw [hb, Bool.true_or]
      exact (run_of_stuck hs xs).imp_right fun hs => .inl ⟨rfl, hs⟩
    · rw [hb, Bool.false_or]
      exact ih hs

/-! ## What follows -/

/-- The engine *delivers* input: what it waits for is given to the machine, and the request is
closed. -/
def Delivers (e : Engine) : Prop :=
  ∀ c i, c.input? = some i → e.state = .suspended i.kind →
    e.apply c = e.answered.running (i.deliver e.machine)

/-- The engine *goes on no more*: a step or input changes nothing and is answered with one message.
-/
def GoesOnNoMore (e : Engine) : Prop :=
  ∀ c : Command, c.goesOn = true →
    ∃ message, (e.handle c).1 = e ∧ Emission.events (e.handle c).2 = [.errorOutput message]

/-- An engine in step delivers input that its program waits for, to the machine and only once. -/
lemma InStep.delivers {e : Engine} (h : InStep e) : Delivers e := by
  intro c i hc hs
  rw [← input_of_pending_eq ((h.suspended i.kind).1 hs)]
  match c, hc with
  | .inputKey _, rfl => rfl
  | .inputString _, rfl => rfl

/-- A command that comes to one event changes nothing and is answered with that event. -/
lemma handle_of_apply_eq_answer {e : Engine} {c : Command} {ev : Event} (ht : e.terminated = false)
    (ha : e.apply c = e.answer ev) :
    (e.handle c).1 = e ∧ Emission.events (e.handle c).2 = [ev] := by
  simp only [handle, ht, Bool.false_eq_true, if_false, handleLive, ha, answer]
  refine ⟨trivial, ?_⟩
  split_ifs <;> rfl

/-- A command that comes to an engine and to nothing else is not answered. -/
lemma handle_of_apply_eq_quiet {e e' : Engine} {c : Command} (ht : e.terminated = false)
    (ha : e.apply c = e'.quiet) :
    (e.handle c).1 = e' ∧ Emission.events (e.handle c).2 = [] := by
  simp only [handle, ht, Bool.false_eq_true, if_false, handleLive, ha, quiet]
  refine ⟨trivial, ?_⟩
  split_ifs <;> rfl

/-- A command that is refused changes nothing and is answered with one message. -/
lemma handle_of_apply_eq_refuse {e : Engine} {c : Command} {f : Fault} (ht : e.terminated = false)
    (ha : e.apply c = e.refuse f) (hf : f.kind ≠ .crash) :
    (e.handle c).1 = e ∧ Emission.events (e.handle c).2 = [.errorOutput f.message] := by
  simp only [handle, ht, Bool.false_eq_true, if_false, handleLive, ha, refuse, recover, if_neg hf,
    List.nil_append]
  refine ⟨trivial, ?_⟩
  split_ifs <;> rfl

/-- A stuck engine goes on no more: every step and every input is refused. -/
lemma Stuck.goesOnNoMore {e : Engine} (h : Stuck e) : GoesOnNoMore e := by
  intro c hc
  rcases apply_of_stuck h c with ⟨f, hf, ha⟩ | ⟨hn, -⟩
  · exact ⟨f.message, handle_of_apply_eq_refuse h.not_terminated ha (by rw [hf]; exact nofun)⟩
  · rw [hn] at hc
    cases hc

/-- A session at its start is in step, as its program has not asked for anything. -/
lemma inStep_start (machine : Machine) (logCommands : Bool) : InStep (start machine logCommands) :=
  .of_idle rfl rfl

/-- **When the two records are in step**: in a session that has not come to its end they are,
exactly if the machine has thrown back no input that was let through to it. Then the next input of
the kind that the engine waits for is given to the machine. Otherwise the engine is stuck and goes
on no more.

**Proof sketch.** A session starts in step. By `run_of_inStep` it ends in step or stuck, according
to what has happened in between, and the two exclude each other. -/
theorem inStep_run_start_iff (machine : Machine) (logCommands : Bool) (xs : List Happening)
    {e : Engine} (he : ((start machine logCommands).run xs).1 = e) (ht : e.terminated = false) :
    (InStep e ↔ (start machine logCommands).everBounces xs = false) ∧
    (InStep e → Delivers e) ∧ (¬ InStep e → Stuck e ∧ GoesOnNoMore e) := by
  have hrun := run_of_inStep (inStep_start machine logCommands) xs
  rw [he, ht] at hrun
  rcases hrun with hf | ⟨hb, hs⟩ | ⟨hb, hi⟩
  · cases hf
  · rw [hb]
    exact ⟨iff_of_false hs.not_inStep nofun, fun hi => absurd hi hs.not_inStep,
      fun _ => ⟨hs, hs.goesOnNoMore⟩⟩
  · exact ⟨iff_of_true hi hb, fun hi => hi.delivers, fun hn => absurd hi hn⟩

/-- A program that waits for a key and is given one. -/
theorem inStep_run_start_of_key :
    ∃ e, ((start (.initial [(0, .readKey)] 0 {}) false).run
        [.command .step, .command (.inputKey "a")]).1 = e ∧ e.terminated = false ∧ InStep e :=
  ⟨_, rfl, rfl, (inStep_run_start_iff _ _ _ rfl rfl).1.2 rfl⟩

/-- A machine that throws a key back is not in step: it still waits for a key, and the next one is
refused. -/
theorem not_inStep_of_thrown_back_key :
    ∃ e, ((start (.initial [(0, .readKey)] 0
          { supplyKey := [some ⟨[], some (.error (.raised .violation "key refused"))⟩] }) false).run
        [.command .step, .command (.inputKey "a")]).1 = e ∧
      e.state = .suspended .key ∧ e.relay.pending = none ∧ ¬ InStep e ∧
      Emission.events (e.handle (.inputKey "b")).2 =
        [.errorOutput "Unexpected key input: the program is not waiting for input"] := by
  refine ⟨_, rfl, rfl, rfl, fun h => ?_, ?_⟩
  · have hp := (h.suspended .key).1 rfl
    cases hp
  · decide

end Engine

end DebugWire
