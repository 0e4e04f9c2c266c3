import DebugWire.Engine.Basic
import DebugWire.Proofs.Breakpoints
import Mathlib.Tactic.SplitIfs

set_option relaxedAutoImplicit false
set_option autoImplicit false

/-!
# What an engine lets out

Every event that an engine lets out can be written. The one event with a number is that of a
breakpoint, and an engine tells of a breakpoint only where there is one, at a 16-bit address.

## Main definitions

* `DebugWire.Event.Encodes` — an event has frames.
* `DebugWire.Event.Backed` — an event tells of no breakpoint that there is not.
* `DebugWire.Emission.AllEncode`, `DebugWire.Emission.Backed` — so it is with all events of a trace.

## Main results

* `DebugWire.Engine.backed_handle` — what a command lets out.
* `DebugWire.Engine.allEncode_happen` — what one happening lets out.
* `DebugWire.Engine.allEncode_run` — what a run lets out.
-/

namespace DebugWire

/-! ## Events that can be written -/

/-- An event *encodes* if it has frames. -/
def Event.Encodes (e : Event) : Prop := ∃ bytes, e.encode = .ok bytes

/-- An event is *backed* by a set of breakpoints if it tells of none that is not in the set. -/
def Event.Backed (s : Breakpoints) : Event → Prop
  | breakpointHit x => s.contains x = true
  | _ => True

/-- Printed text tells of no breakpoint, so any breakpoints back its event. -/
lemma Channel.backed_event (s : Breakpoints) (channel : Channel) (text : String) :
    (channel.event text).Backed s := by
  cases channel <;> trivial

/-- A request for input tells of no breakpoint, so any breakpoints back it. -/
lemma InputKind.backed_requested (s : Breakpoints) (kind : InputKind) :
    kind.requested.Backed s := by
  cases kind <;> trivial

/-- An event that is backed can be written: an address of which it tells is a breakpoint, and these
have sixteen bits. -/
lemma Event.Backed.encodes {s : Breakpoints} {e : Event} (h : e.Backed s) : e.Encodes := by
  cases e with
  | breakpointHit x =>
    obtain ⟨n, hn⟩ := Option.isSome_iff_exists.1 (Breakpoints.isSome_within?_of_contains h)
    refine ⟨(breakpointHit x).tag.byte :: bytes16 n, ?_⟩
    simp only [encode, payload?, hn]
  | _ => exact ⟨_, rfl⟩

/-! ## Traces -/

namespace Emission

/-- All events of a trace encode. -/
def AllEncode (trace : List Emission) : Prop := ∀ e ∈ events trace, e.Encodes

/-- The events of traces one behind the other are those of the first and then those of the second.
-/
@[simp]
lemma events_append (trace trace' : List Emission) :
    events (trace ++ trace') = events trace ++ events trace' :=
  List.filterMap_append

/-- The events of a trace that was made of events. -/
@[simp]
lemma events_map_event (es : List Event) : events (es.map event) = es := by
  induction es with
  | nil => rfl
  | cons e es ih => exact congrArg (e :: ·) ih

/-- All events of a trace are backed by a set of breakpoints. -/
def Backed (s : Breakpoints) (trace : List Emission) : Prop := ∀ e ∈ events trace, e.Backed s

variable {s : Breakpoints} {trace trace' : List Emission}

/-- A trace whose events are backed can be written. -/
lemma Backed.allEncode (h : Backed s trace) : AllEncode trace := fun e he => (h e he).encodes

/-- A trace without events has none that is not backed. -/
lemma backed_nil : Backed s [] := nofun

/-- Traces one behind the other whose events are all backed. -/
lemma Backed.append (h : Backed s trace) (h' : Backed s trace') : Backed s (trace ++ trace') := by
  intro e he
  rw [events_append, List.mem_append] at he
  exact he.elim (h e) (h' e)

/-- An event that is backed in front of a trace. -/
lemma Backed.cons_event {e : Event} (he : e.Backed s) (h : Backed s trace) :
    Backed s (event e :: trace) := by
  intro e' he'
  rcases List.mem_cons.1 he' with rfl | he'
  · exact he
  · exact h e' he'

/-- A note in front of a trace adds no event. -/
lemma Backed.cons_log {entry : Log} (h : Backed s trace) : Backed s (log entry :: trace) := h

/-- Traces one behind the other whose events all encode. -/
lemma AllEncode.append (h : AllEncode trace) (h' : AllEncode trace') :
    AllEncode (trace ++ trace') := by
  intro e he
  rw [events_append, List.mem_append] at he
  exact he.elim (h e) (h' e)

end Emission

/-! ## Printed text -/

namespace Relay

/-- The events of texts one behind the other are those of the first and then those of the second, as
long as the relay stays as it is. -/
lemma events_append (r : Relay) (printed printed' : List Printed) :
    r.events (printed ++ printed') = r.events printed ++ r.events printed' := by
  unfold events
  split_ifs
  · rw [List.filter_append, List.map_append]
  · rfl

/-- The event of a printed text is one of the two kinds of output. -/
lemma exists_of_mem_events {r : Relay} {printed : List Printed} {ev : Event}
    (h : ev ∈ r.events printed) :
    ∃ text, ev = .output text ∨ ev = .errorOutput text := by
  unfold events at h
  split_ifs at h
  · obtain ⟨⟨channel, text⟩, -, rfl⟩ := List.mem_map.1 h
    cases channel with
    | output => exact ⟨text, .inl rfl⟩
    | errorOutput => exact ⟨text, .inr rfl⟩
  · cases h

end Relay

/-! ## The parts of the work -/

namespace Engine

open Emission (AllEncode Backed backed_nil)

variable (e : Engine) {s : Breakpoints}

/-- What is relayed of printed texts is backed by any breakpoints. -/
lemma backed_relayed (printed : List Printed) : Backed s (e.relayed printed) := by
  intro ev hev
  rw [relayed, Emission.events_map_event, Relay.events] at hev
  split_ifs at hev
  · obtain ⟨p, -, rfl⟩ := List.mem_map.1 hev
    exact p.1.backed_event s p.2
  · cases hev

/-- What taking up a call of the machine lets out is backed, if what the work with its result lets
out is. -/
lemma backed_took {α : Type} {call : Machine.Call α} {next : Engine → α → Work}
    (h : ∀ a, Backed s (next { e with machine := call.machine } a).trace) :
    Backed s (e.took call next).trace := by
  unfold took
  cases call.result with
  | ok a => exact (backed_relayed e call.printed).append (h a)
  | error f => exact backed_relayed e call.printed

/-- What is said of a crash is backed by any breakpoints.

**Proof sketch.** A crash tells of its reason, if it has one that is not empty, and of the end.
Neither tells of a breakpoint. -/
lemma backed_crash (reason : Option String) : Backed s (e.crash reason).2 := by
  refine Backed.append ?_ (.cons_event trivial backed_nil)
  unfold reasonEvent
  cases reason with
  | none => exact backed_nil
  | some text =>
    dsimp only
    split_ifs
    · exact backed_nil
    · exact .cons_event trivial backed_nil

/-- So is what is said of the result of running the program. -/
lemma backed_afterRun (result : RunResult) : Backed s (e.afterRun result).trace := by
  cases result with
  | ok => exact backed_nil
  | awaiting kind => exact .cons_event (kind.backed_requested s) backed_nil
  | halted => exact .cons_event trivial backed_nil
  | crashed reason => exact backed_crash e reason

/-- So is what running the program lets out: printed texts, requests for input and the end. -/
lemma backed_running (call : Machine.Call RunResult) : Backed s (e.running call).trace := by
  unfold running
  cases call.result with
  | ok result => exact (backed_relayed e call.printed).append (backed_afterRun _ result)
  | error f =>
    dsimp only
    split_ifs
    · exact backed_relayed e call.printed
    · exact (backed_relayed e call.printed).append (backed_crash _ _).cons_log

/-- What a step lets out is backed: one that looks at the breakpoints tells of one only where there
is one.

**Proof sketch.** A step that does not run the program tells of a breakpoint exactly if it looks at
the breakpoints and there is one at the program counter. Otherwise it lets out what running lets
out. -/
lemma backed_stepOnce {checkBreakpoints : Bool} (h : checkBreakpoints = true → s = e.breakpoints) :
    Backed s (e.stepOnce checkBreakpoints).trace := by
  unfold stepOnce
  split
  · exact backed_nil
  · refine backed_took e fun regs => ?_
    dsimp only
    split_ifs with hb
    · rw [Bool.and_eq_true] at hb
      obtain rfl := h hb.1
      exact .cons_event hb.2 backed_nil
    · exact backed_running _ _

/-- What applying a command lets out is backed, by the breakpoints that there are if it is a step
that looks at them.

**Proof sketch.** One case for each kind of commands. Only a step that looks at the breakpoints
tells of one; changing them lets nothing out, and the others let out what they have been asked for.
-/
lemma backed_apply (c : Command) (h : c = .step → s = e.breakpoints) :
    Backed s (e.apply c).trace := by
  cases c with
  | step => exact backed_stepOnce e fun _ => h rfl
  | stepIgnoringBreakpoints => exact backed_stepOnce e nofun
  | stop => exact backed_nil
  | setBreakpoint address | clearBreakpoint address =>
    simp only [apply, withBreakpoints]
    split <;> exact backed_nil
  | requestDump | requestMemory first limit | requestStack =>
    exact backed_took e fun _ => .cons_event trivial backed_nil
  | setMemory address bytes | setRegister register value => exact backed_took e fun _ => backed_nil
  | inputKey key | inputString text => exact backed_running _ _

/-- What taking up a fault lets out is backed by any breakpoints. -/
lemma backed_recover (f : Fault) : Backed s (e.recover f).2 := by
  by_cases hf : f.kind = .crash
  · rw [recover, if_pos hf]
    exact (backed_crash e _).cons_log
  · rw [recover, if_neg hf]
    dsimp only
    split_ifs <;> exact Backed.cons_log (.cons_event trivial backed_nil)

/-! ## Happenings and runs -/

/-- **One command** lets out events that are backed, by the breakpoints that there are if it is a
step that looks at them.

**Proof sketch.** Handling applies the command and takes up the fault that may come of that, and
adds an entry to the log, which is no event. -/
theorem backed_handle (c : Command) (h : c = .step → s = e.breakpoints) :
    Backed s (e.handle c).2 := by
  have hlive : Backed s (e.handleLive c).2 := by
    unfold handleLive
    dsimp only
    cases (e.apply c).fault with
    | none => exact backed_apply e c h
    | some f => exact (backed_apply e c h).append (backed_recover _ f)
  unfold handle
  split_ifs
  · exact backed_nil.cons_log
  · exact hlive.cons_log
  · exact hlive

/-- What is relayed of printed texts can be written. -/
lemma allEncode_relayed (printed : List Printed) : AllEncode (e.relayed printed) :=
  (backed_relayed (s := e.breakpoints) e printed).allEncode

/-- What handling a command lets out can be written. -/
lemma allEncode_handle (c : Command) : AllEncode (e.handle c).2 :=
  (backed_handle e c fun _ => rfl).allEncode

/-- **One happening** lets out only events that can be written. -/
theorem allEncode_happen (x : Happening) : AllEncode (e.happen x).2 := by
  cases x with
  | command c => exact allEncode_handle e c
  | report message =>
    exact (Backed.cons_event (s := e.breakpoints) (e :=
      .errorOutput message) trivial backed_nil).allEncode
  | printed p => exact allEncode_relayed e [p]

/-- **A run** lets out only events that can be written. -/
theorem allEncode_run (xs : List Happening) : AllEncode (e.run xs).2 := by
  induction xs generalizing e with
  | nil => exact nofun
  | cons x xs ih => exact (allEncode_happen e x).append (ih _)

end Engine

end DebugWire
