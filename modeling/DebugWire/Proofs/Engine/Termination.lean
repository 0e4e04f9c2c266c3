import DebugWire.Proofs.Engine.Emission
import DebugWire.Proofs.Engine.Suspension

set_option relaxedAutoImplicit false
set_option autoImplicit false

/-!
# The end of a session

An engine comes to its end in one of two ways. The program ends, and one event tells of that; or the
engine is told to stop, and no event does. The relay is detached in the same moment. So from then on
there are no events, whatever is asked of the engine and whatever the machine prints, and nothing
changes any more.

## Main definitions

* `DebugWire.Emission.ends` — the ends that a trace tells of.
* `DebugWire.Engine.Live` — an engine that takes commands and relays what is printed.
* `DebugWire.Engine.Tells` — what was let out tells of the end that the state records.

## Main results

* `DebugWire.Engine.tells_handle` — one command.
* `DebugWire.Engine.tells_run` — a run.
* `DebugWire.Engine.silent_run` — a run behind the end.
* `DebugWire.Engine.ends_run_start` — when an end is told of, and what follows.
-/

namespace DebugWire

/-! ## Ends -/

/-- The event that tells of an end. -/
def EndReason.event : EndReason → Event
  | endOfProgram => .endOfProgram
  | crashed => .crashed

/-- The end that an event tells of. -/
def Event.end? : Event → Option EndReason
  | endOfProgram => some .endOfProgram
  | crashed => some .crashed
  | _ => none

/-- The end that a state records, if the program has ended. -/
def EngineState.ends : EngineState → List EndReason
  | finished reason => [reason]
  | _ => []

/-- An event tells of an end exactly if it is the event of that end. -/
lemma Event.end?_eq_some_iff {e : Event} {reason : EndReason} :
    e.end? = some reason ↔ e = reason.event := by
  cases e <;> cases reason <;> simp [end?, EndReason.event]

/-- A state records an end exactly if the program has ended in that way. -/
lemma EngineState.mem_ends_iff {state : EngineState} {reason : EndReason} :
    reason ∈ state.ends ↔ state = .finished reason := by
  cases state <;> simp [ends, eq_comm]

namespace Emission

/-- The ends that a trace tells of, in order. -/
def ends (trace : List Emission) : List EndReason := (events trace).filterMap Event.end?

/-- The ends that are told of in two traces are those of the first and then those of the second. -/
@[simp]
lemma ends_append (trace trace' : List Emission) :
    ends (trace ++ trace') = ends trace ++ ends trace' := by
  simp only [ends, events_append, List.filterMap_append]

/-- Nothing tells of no end. -/
@[simp]
lemma ends_nil : ends [] = [] := rfl

/-- A trace tells of an end exactly if the event of that end is in it. -/
lemma mem_ends_iff {trace : List Emission} {reason : EndReason} :
    reason ∈ ends trace ↔ reason.event ∈ events trace := by
  rw [ends, List.mem_filterMap]
  constructor
  · rintro ⟨e, he, hr⟩
    exact Event.end?_eq_some_iff.1 hr ▸ he
  · exact fun h => ⟨_, h, Event.end?_eq_some_iff.2 rfl⟩

end Emission

namespace Engine

/-! ## The parts of the work -/

/-- The engine is *live*: it takes commands, and its relay lets printed text through. -/
structure Live (e : Engine) : Prop where
  /-- It takes commands. -/
  terminated : e.terminated = false
  /-- Its relay lets printed text through. -/
  attached : e.relay.attached = true

/-- What a live engine has let out *tells* of the end that its state now records, once, and its
relay is detached exactly if there is an end. It has stopped exactly if it was told to. -/
structure Tells (toldToStop : Prop) (result : Engine × List Emission) : Prop where
  /-- The end that the state records is told of, and no other. -/
  ends : Emission.ends result.2 = result.1.state.ends
  /-- The relay is detached at an end. -/
  attached : result.1.relay.attached = !result.1.terminated
  /-- The engine stops when it is told to. -/
  stopped : result.1.state = .stopped ↔ toldToStop

variable {e : Engine}

/-- A live engine records no end, neither that the program has finished nor a crash. -/
lemma Live.ends_eq_nil (h : Live e) : e.state.ends = [] := by
  have ht := h.terminated
  rw [Engine.terminated] at ht
  cases hs : e.state with
  | idle | suspended pending | stopped => rfl
  | finished reason =>
    rw [hs] at ht
    cases ht

/-- A live engine has not stopped, as it takes commands still. -/
lemma Live.state_ne_stopped (h : Live e) : e.state ≠ .stopped := by
  intro hs
  have ht := h.terminated
  rw [Engine.terminated, hs] at ht
  cases ht

/-- Another machine leaves an engine live, for liveness is about its state only. -/
lemma Live.withMachine (h : Live e) (m : Machine) : Live { e with machine := m } :=
  ⟨h.terminated, h.attached⟩

/-- Work that leaves a live engine in its state, with its relay attached, tells of no end. -/
lemma Live.tells {e' : Engine} {trace : List Emission} (h : Live e) (hs : e'.state = e.state)
    (hr : e'.relay.attached = e.relay.attached) (ht : Emission.ends trace = []) :
    Tells False (e', trace) where
  ends := by rw [ht, hs, h.ends_eq_nil]
  attached := by
    have hterm : e'.terminated = e.terminated := congrArg EngineState.terminal hs
    rw [hr, hterm, h.attached, h.terminated]
    rfl
  stopped := iff_of_false (by rw [hs]; exact h.state_ne_stopped) id

/-- Printed text in front of a trace changes nothing about the ends.

**Proof sketch.** What is printed gives events of the two channels only, and none of these is an
end. -/
lemma Tells.relayed_append {toldToStop : Prop} {e' : Engine} {trace : List Emission}
    (h : Tells toldToStop (e', trace)) (e : Engine) (printed : List Printed) :
    Tells toldToStop (e', e.relayed printed ++ trace) where
  ends := by
    have hp : Emission.ends (e.relayed printed) = [] := by
      rw [relayed, Emission.ends, Emission.events_map_event, List.filterMap_eq_nil_iff,
        Relay.events]
      intro ev hev
      split_ifs at hev
      · obtain ⟨⟨channel, text⟩, -, rfl⟩ := List.mem_map.1 hev
        cases channel <;> rfl
      · cases hev
    rw [Emission.ends_append, hp, List.nil_append]
    exact h.ends
  attached := h.attached
  stopped := h.stopped

/-- A note in front of a trace changes nothing about the ends. -/
lemma Tells.note_cons {toldToStop : Prop} {e' : Engine} {trace : List Emission}
    (h : Tells toldToStop (e', trace)) (level : LogLevel) (text : String) :
    Tells toldToStop (e', .note level text :: trace) :=
  ⟨h.ends, h.attached, h.stopped⟩

/-- Printed text alone tells of no end, and leaves the engine live. -/
lemma Live.tells_relayed (h : Live e) (m : Machine) (printed : List Printed) :
    Tells False ({ e with machine := m }, e.relayed printed) := by
  have ht : Tells False ({ e with machine := m }, []) := h.tells rfl rfl Emission.ends_nil
  have hp := ht.relayed_append e printed
  rwa [List.append_nil] at hp

/-- Work *carries on* from a live engine: it tells of the end that it brings, and it is cut short
only if it brings none. -/
structure CarriesOn (toldToStop : Prop) (w : Work) : Prop where
  /-- What it lets out tells of the end that it brings. -/
  tells : Tells toldToStop (w.engine, w.trace)
  /-- It is cut short only while there is no end. -/
  live : w.fault ≠ none → Live w.engine

/-- Taking up a call of the machine carries on if the work with its result does. -/
lemma carriesOn_took {α : Type} {call : Machine.Call α} {next : Engine → α → Work} (he : Live e)
    (h : ∀ a, CarriesOn False (next { e with machine := call.machine } a)) :
    CarriesOn False (e.took call next) := by
  unfold took
  cases call.result with
  | ok a => exact ⟨(h a).tells.relayed_append e call.printed, (h a).live⟩
  | error f =>
    exact ⟨he.tells_relayed call.machine call.printed, fun _ => he.withMachine call.machine⟩

/-- Work that lets out one event, which tells of no end, carries on. -/
lemma carriesOn_answer {ev : Event} (he : Live e) (hev : ev.end? = none) :
    CarriesOn False (e.answer ev) where
  tells := he.tells rfl rfl (by simp [answer, Emission.ends, Emission.events, Emission.event?, hev])
  live h := absurd rfl h

/-- Work that does nothing more carries on, with nothing to tell. -/
lemma carriesOn_quiet (he : Live e) : CarriesOn False (quiet e) where
  tells := he.tells rfl rfl rfl
  live h := absurd rfl h

/-- Work that is refused carries on: the engine stays live and tells of no end. -/
lemma carriesOn_refuse (he : Live e) (f : Fault) : CarriesOn False (e.refuse f) where
  tells := he.tells rfl rfl rfl
  live _ := he

/-- A crash is told of once.

**Proof sketch.** The text of the reason is no end, so the crash is the only end of which it tells.
The relay is detached, and the state is another one than stopped. -/
lemma tells_crash (e : Engine) (reason : Option String) : Tells False (e.crash reason) where
  ends := by
    have hr : Emission.ends (reasonEvent reason) = [] := by
      unfold reasonEvent
      cases reason with
      | none => rfl
      | some text =>
        dsimp only
        split_ifs <;> rfl
    rw [crash, Emission.ends_append, hr]
    rfl
  attached := rfl
  stopped := iff_of_false nofun id

/-- What running the program has come to carries on. -/
lemma carriesOn_afterRun (he : Live e) (result : RunResult) :
    CarriesOn False (e.afterRun result) := by
  cases result with
  | ok => exact ⟨⟨rfl, he.attached, iff_of_false nofun id⟩, fun h => absurd rfl h⟩
  | awaiting kind =>
    refine ⟨⟨?_, he.attached, iff_of_false nofun id⟩, fun h => absurd rfl h⟩
    cases kind <;> rfl
  | halted => exact ⟨⟨rfl, rfl, iff_of_false nofun id⟩, fun h => absurd rfl h⟩
  | crashed reason => exact ⟨tells_crash e reason, fun h => absurd rfl h⟩

/-- Taking up a call that runs the program carries on.

**Proof sketch.** What comes of the call, or the crash, carries on by its own lemma; the text that
was printed stands in front of it. -/
lemma carriesOn_running (he : Live e) (call : Machine.Call RunResult) :
    CarriesOn False (e.running call) := by
  unfold running
  cases call.result with
  | ok result =>
    have ha := carriesOn_afterRun (he.withMachine call.machine) result
    exact ⟨ha.tells.relayed_append e call.printed, ha.live⟩
  | error f =>
    dsimp only
    split_ifs
    · exact ⟨he.tells_relayed call.machine call.printed, fun _ => he.withMachine call.machine⟩
    · have hc := (tells_crash { e with machine := call.machine } (some f.message)).note_cons .error
        ("Device fault: " ++ f.message)
      exact ⟨hc.relayed_append e call.printed, fun h => absurd rfl h⟩

/-- A step carries on, or tells of the one end to which it has led. -/
lemma carriesOn_stepOnce (he : Live e) (checkBreakpoints : Bool) :
    CarriesOn False (e.stepOnce checkBreakpoints) := by
  unfold stepOnce
  split
  · exact carriesOn_refuse he _
  · refine carriesOn_took he fun regs => ?_
    dsimp only
    split_ifs
    · exact carriesOn_answer (he.withMachine _) rfl
    · exact carriesOn_running (he.withMachine _) _

/-- Input carries on, or tells of the one end to which the program has come by it. -/
lemma carriesOn_input (he : Live e) (i : Input) : CarriesOn False (e.input i) := by
  have hr : (e.relay.supply e.machine i).1.attached = true := by
    unfold Relay.supply
    cases e.relay.refusal i.kind with
    | none => exact he.attached
    | some f => exact he.attached
  have hl : Live { e with relay := (e.relay.supply e.machine i).1 } := ⟨he.terminated, hr⟩
  exact carriesOn_running hl _

/-- Applying a command carries on.

**Proof sketch.** One case for each command, by the lemma about the work that it does. Only a stop
is told to stop. -/
lemma carriesOn_apply (he : Live e) (c : Command) : CarriesOn (c = .stop) (e.apply c) := by
  cases c with
  | stop => exact ⟨⟨rfl, rfl, iff_of_true rfl rfl⟩, fun h => absurd rfl h⟩
  | step =>
    simp only [apply, reduceCtorEq]
    exact carriesOn_stepOnce he true
  | stepIgnoringBreakpoints =>
    simp only [apply, reduceCtorEq]
    exact carriesOn_stepOnce he false
  | setBreakpoint address | clearBreakpoint address =>
    simp only [apply, withBreakpoints, reduceCtorEq]
    split
    · exact carriesOn_quiet ⟨he.terminated, he.attached⟩
    · exact carriesOn_refuse he _
  | requestDump | requestMemory first limit | requestStack =>
    simp only [apply, reduceCtorEq]
    exact carriesOn_took he fun _ => carriesOn_answer (he.withMachine _) rfl
  | setMemory address bytes | setRegister register value =>
    simp only [apply, reduceCtorEq]
    exact carriesOn_took he fun _ => carriesOn_quiet (he.withMachine _)
  | inputKey key | inputString text =>
    simp only [apply, reduceCtorEq]
    exact carriesOn_input he _

/-- Taking up a fault of a live engine tells of a crash, or of no end. -/
lemma tells_recover (he : Live e) (f : Fault) : Tells False (e.recover f) := by
  by_cases hf : f.kind = .crash
  · rw [recover, if_pos hf]
    exact (tells_crash e (some f.message)).note_cons .error _
  · rw [recover, if_neg hf]
    refine he.tells rfl rfl ?_
    split_ifs <;> rfl

/-! ## One happening -/

/-- **One command** to a live engine tells of the end that it brings, if it brings one.

**Proof sketch.** If the work carries on without a fault, it tells of the end itself. With a fault
the engine is live, so the work told of none, and recovering tells of the crash if there is one. The
log of the command is no event. -/
theorem tells_handle (he : Live e) (c : Command) : Tells (c = .stop) (e.handle c) := by
  have hlive : Tells (c = .stop) (e.handleLive c) := by
    have ha := carriesOn_apply he c
    unfold handleLive
    dsimp only
    cases hf : (e.apply c).fault with
    | none => exact ha.tells
    | some f =>
      have hl := ha.live (by rw [hf]; exact nofun)
      have hr := tells_recover hl f
      have hc : c ≠ .stop := fun hc => hl.state_ne_stopped (ha.tells.stopped.2 hc)
      exact {
        ends := by
          rw [Emission.ends_append, ha.tells.ends, hl.ends_eq_nil, hr.ends]
          rfl
        attached := hr.attached
        stopped := hr.stopped.trans (iff_of_false id hc) }
  simp only [handle, he.terminated, Bool.false_eq_true, if_false]
  split_ifs
  · exact hlive.note_cons .debug _
  · exact hlive

/-- The engine *rests*: it has come to its end, and its relay is detached. -/
structure Rests (e : Engine) : Prop where
  /-- It has come to its end. -/
  terminated : e.terminated = true
  /-- Its relay holds printed text back. -/
  detached : e.relay.attached = false

/-- A live engine after a command is live, or it rests. -/
lemma Tells.live_or_rests {toldToStop : Prop} {result : Engine × List Emission}
    (h : Tells toldToStop result) :
    Live result.1 ∨ Rests result.1 := by
  have ha := h.attached
  cases ht : result.1.terminated with
  | false => exact .inl ⟨ht, by rw [ha, ht]; rfl⟩
  | true => exact .inr ⟨ht, by rw [ha, ht]; rfl⟩

/-- What happens to an engine that rests, other than a report, gives no event. -/
lemma Rests.events_happen (h : Rests e) {x : Happening} (hx : ∀ message, x ≠ .report message) :
    Emission.events (e.happen x).2 = [] := by
  cases x with
  | report message => exact absurd rfl (hx message)
  | printed p =>
    simp only [happen, Engine.printed, relayed, Emission.events_map_event, Relay.events, h.detached,
      Bool.false_eq_true, if_false]
  | command c =>
    simp only [happen, handle, h.terminated, if_true]
    rfl

/-- What happens to an engine that rests tells of no end. -/
lemma Rests.ends_happen (h : Rests e) (x : Happening) : Emission.ends (e.happen x).2 = [] := by
  cases x with
  | report message => rfl
  | printed p => rw [Emission.ends, h.events_happen (by simp), List.filterMap_nil]
  | command c => rw [Emission.ends, h.events_happen (by simp), List.filterMap_nil]

/-! ## Runs -/

/-- A run of an engine that rests tells of no end. -/
lemma Rests.ends_run (h : Rests e) (xs : List Happening) : Emission.ends (e.run xs).2 = [] := by
  induction xs with
  | nil => rfl
  | cons x xs ih =>
    simp only [run]
    rw [Emission.ends_append, h.ends_happen x, happen_of_terminated h.terminated, ih,
      List.append_nil]

/-- **A run behind the end** gives no event and changes nothing, unless it has reports.

**Proof sketch.** The engine stays as it is behind its end. By induction on the happenings each of
them gives no event, as only a report does there. -/
theorem silent_run (h : Rests e) {xs : List Happening} (hx : ∀ message, .report message ∉ xs) :
    (e.run xs).1 = e ∧ Emission.events (e.run xs).2 = [] := by
  refine ⟨run_of_terminated h.terminated xs, ?_⟩
  induction xs with
  | nil => rfl
  | cons x xs ih =>
    have hhead : ∀ message, x ≠ .report message :=
      fun message hm => hx message (hm ▸ List.mem_cons_self)
    have htail : ∀ message, .report message ∉ xs :=
      fun message hm => hx message (List.mem_cons_of_mem x hm)
    simp only [run]
    rw [Emission.events_append, h.events_happen hhead, happen_of_terminated h.terminated, ih htail,
      List.append_nil]

/-- A stop reaches a live engine within the run. -/
def IsStopped (e : Engine) (xs : List Happening) : Prop :=
  ∃ before after, xs = before ++ .command .stop :: after ∧ (e.run before).1.terminated = false

/-- A stop that reaches a live engine is the first happening, or reaches it behind that one.

**Proof sketch.** By whether something stands before the stop. If nothing does then the stop is the
first happening; otherwise the first happening is taken away on both sides. -/
lemma isStopped_cons_iff (he : e.terminated = false) {x : Happening} {xs : List Happening} :
    e.IsStopped (x :: xs) ↔ x = .command .stop ∨ (e.happen x).1.IsStopped xs := by
  constructor
  · rintro ⟨before, after, hxs, hb⟩
    rcases before with _ | ⟨y, before⟩
    · exact .inl (List.cons.inj hxs).1
    · obtain ⟨rfl, rfl⟩ := List.cons.inj hxs
      exact .inr ⟨before, after, rfl, hb⟩
  · rintro (rfl | ⟨before, after, rfl, hb⟩)
    · exact ⟨[], xs, rfl, he⟩
    · exact ⟨x :: before, after, rfl, hb⟩

/-- No stop reaches an engine that has come to its end. -/
lemma not_isStopped_of_terminated (h : e.terminated = true) (xs : List Happening) :
    ¬ e.IsStopped xs := by
  rintro ⟨before, after, -, hb⟩
  rw [run_of_terminated h, h] at hb
  cases hb

/-- One happening to a live engine tells of the end that it brings, if it brings one. -/
lemma tells_happen (he : Live e) (x : Happening) : Tells (x = .command .stop) (e.happen x) := by
  cases x with
  | command c => simpa only [happen, Happening.command.injEq] using tells_handle he c
  | report message =>
    have h : Tells False (e.happen (.report message)) := he.tells rfl rfl rfl
    simpa only [reduceCtorEq] using h
  | printed p =>
    have h : Tells False (e.happen (.printed p)) := he.tells_relayed e.machine [p]
    simpa only [reduceCtorEq] using h

/-- **A run** of a live engine tells of the end that it brings, if it brings one.

**Proof sketch.** Induction on the run. As long as the engine is live, nothing has been told. Once
it rests, nothing more is told, and no stop reaches it. -/
theorem tells_run (he : Live e) (xs : List Happening) : Tells (e.IsStopped xs) (e.run xs) := by
  induction xs generalizing e with
  | nil =>
    have hn : ¬ e.IsStopped [] := by
      rintro ⟨before, after, hxs, -⟩
      exact List.append_ne_nil_of_right_ne_nil before (List.cons_ne_nil _ _) hxs.symm
    exact ⟨(he.tells rfl rfl rfl).ends, (he.tells rfl rfl rfl).attached,
      iff_of_false he.state_ne_stopped hn⟩
  | cons x xs ih =>
    have hx := tells_happen he x
    simp only [run]
    rcases hx.live_or_rests with hl | hr
    · have hs : x ≠ .command .stop := fun h => hl.state_ne_stopped (hx.stopped.2 h)
      have ht := ih hl
      exact {
        ends := by rw [Emission.ends_append, hx.ends, hl.ends_eq_nil, List.nil_append, ht.ends]
        attached := ht.attached
        stopped := ht.stopped.trans (by rw [isStopped_cons_iff he.terminated, or_iff_right hs]) }
    · have hstay := run_of_terminated hr.terminated xs
      exact {
        ends := by rw [Emission.ends_append, hr.ends_run, List.append_nil, hstay, hx.ends]
        attached := by rw [hstay, hx.attached]
        stopped := by
          rw [hstay, hx.stopped, isStopped_cons_iff he.terminated,
            or_iff_left (not_isStopped_of_terminated hr.terminated xs)] }

/-- An engine at its start is live: it is idle, and its relay is attached. -/
lemma live_start (machine : Machine) (logCommands : Bool) : Live (start machine logCommands) :=
  ⟨rfl, rfl⟩

/-- **The end is told of once**: a session tells of at most one end, of just the end that its state
records. It has stopped exactly if a stop has reached it before its end, and then it tells of none.
From its end on, commands and printed texts give no event and change nothing.

**Proof sketch.** A session starts live, so by `tells_run` the ends it tells of are those that its
state records. At an end its relay is detached, and `silent_run` applies. -/
theorem ends_run_start (machine : Machine) (logCommands : Bool) (xs : List Happening) {e : Engine}
    {trace : List Emission} (hr : (start machine logCommands).run xs = (e, trace)) :
    (Emission.ends trace).length ≤ 1 ∧
    (∀ reason, e.state = .finished reason ↔ reason.event ∈ Emission.events trace) ∧
    (e.state = .stopped ↔ (start machine logCommands).IsStopped xs) ∧
    (e.state = .stopped → ∀ reason, EndReason.event reason ∉ Emission.events trace) ∧
    (e.terminated = true → ∀ ys, (∀ message, Happening.report message ∉ ys) →
      (e.run ys).1 = e ∧ Emission.events (e.run ys).2 = []) := by
  have h := tells_run (live_start machine logCommands) xs
  rw [hr] at h
  have hiff (reason : EndReason) : e.state = .finished reason ↔
      reason.event ∈ Emission.events trace := by
    rw [← Emission.mem_ends_iff, h.ends, EngineState.mem_ends_iff]
  refine ⟨?_, hiff, h.stopped, fun hs reason hm => ?_, fun ht ys hy => ?_⟩
  · rw [h.ends]
    cases e.state <;> simp [EngineState.ends]
  · have hf := (hiff reason).2 hm
    rw [hs] at hf
    cases hf
  · exact silent_run ⟨ht, by rw [h.attached, ht]; rfl⟩ hy

/-- A program that prints, waits for a key and fails with a reason when it gets one; behind that a
step, a stop and a text that the machine prints. -/
theorem ends_run_start_of_crash :
    ∃ e trace,
      (start (.initial [(0, .print .output "a"), (1, .readKey)] 0
          { supplyKey := [some ⟨[(.errorOutput, "b")], some (.ok (.crashed (some "c")))⟩] })
            false).run
        [.command .step, .command .step, .command (.inputKey "k"), .command .step, .command .stop,
          .printed (.output, "d")] = (e, trace) ∧
      Emission.events trace =
        [.output "a", .keyRequested, .errorOutput "b", .errorOutput "c", .crashed] ∧
      e.state = .finished .crashed ∧ (e.run [.command .stop, .printed (.output, "x")]).1 = e := by
  obtain ⟨e, trace, hr⟩ : ∃ e trace,
      (start (.initial [(0, .print .output "a"), (1, .readKey)] 0
          { supplyKey := [some ⟨[(.errorOutput, "b")], some (.ok (.crashed (some "c")))⟩] })
            false).run
        [.command .step, .command .step, .command (.inputKey "k"), .command .step, .command .stop,
          .printed (.output, "d")] = (e, trace) := ⟨_, _, rfl⟩
  have htrace : Emission.events trace =
      [.output "a", .keyRequested, .errorOutput "b", .errorOutput "c", .crashed] := by
    have ht : _ = trace := congrArg Prod.snd hr
    rw [← ht]
    decide +kernel
  obtain ⟨-, hf, -, -, hs⟩ := ends_run_start _ _ _ hr
  have he := (hf .crashed).2 (by rw [htrace]; decide)
  exact ⟨e, trace, hr, htrace, he, (hs (by rw [Engine.terminated, he]; rfl) _ (by simp)).1⟩

end Engine

end DebugWire
