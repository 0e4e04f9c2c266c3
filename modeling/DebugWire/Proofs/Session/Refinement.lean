import DebugWire.Proofs.Engine.Emission
import DebugWire.Proofs.Wire.CommandChunks
import DebugWire.Session.Basic

set_option relaxedAutoImplicit false
set_option autoImplicit false

/-!
# Sessions follow their engine

A session that is fed the stream of a script, cut into chunks in any way that leaves the strings
whole, does what its engine does with the commands one by one: it writes each event once and in
order, and ends as the engine does. What comes in behind the command that ends the engine has no
effect.

## Main definitions

* `DebugWire.Engine.drive` — the commands one by one, up to the one that ends the engine.
* `DebugWire.Session.Open` — a session that takes commands and whose output takes events.
* `DebugWire.Session.Follows` — what a session has done is what its engine does with commands.

## Main results

* `DebugWire.Session.pump_induction` — induction on the items that wait in the reader.
* `DebugWire.Session.pump_follows` — the commands that wait in the reader.
* `DebugWire.Session.run_follows` — the commands that chunks give.
* `DebugWire.Session.run_start_eq_drive` — a script in chunks.
-/

namespace DebugWire

/-! ## Driving an engine -/

namespace Engine

/-- The effect of commands that are handled one by one, up to and including the first one that
brings the engine to its end. -/
def drive (e : Engine) : List Command → Engine × List Emission
  | [] => (e, [])
  | c :: cs =>
    let (e₁, t₁) := e.handle c
    if e₁.terminated then (e₁, t₁)
    else
      let (e₂, t₂) := e₁.drive cs
      (e₂, t₁ ++ t₂)

/-- Driving by a command that brings the engine to its end. -/
lemma drive_cons_of_terminated {e : Engine} {c : Command} (h : (e.handle c).1.terminated = true)
    (cs : List Command) : e.drive (c :: cs) = e.handle c := by
  simp only [drive, h, if_true]

/-- Driving by a command that does not end the engine goes on with the others. -/
lemma drive_cons_of_not_terminated {e : Engine} {c : Command}
    (h : (e.handle c).1.terminated = false) (cs : List Command) :
    e.drive (c :: cs) =
      (((e.handle c).1.drive cs).1, (e.handle c).2 ++ ((e.handle c).1.drive cs).2) := by
  simp only [drive, h, Bool.false_eq_true, if_false]

/-- Driving by one command is handling it, whether or not that ends the engine. -/
lemma drive_singleton (e : Engine) (c : Command) : e.drive [c] = e.handle c := by
  cases h : (e.handle c).1.terminated with
  | true => exact drive_cons_of_terminated h []
  | false =>
    rw [drive_cons_of_not_terminated h, drive, List.append_nil]

/-- Driving by commands that bring the engine to its end, and others, is driving by the first alone.

**Proof sketch.** Induction on the commands: nothing is driven behind the one that ends the engine,
and there is one, since it was not at its end at first. -/
lemma drive_append_of_terminated {e : Engine} {cs : List Command} (he : e.terminated = false)
    (h : (e.drive cs).1.terminated = true) (ds : List Command) :
    e.drive (cs ++ ds) = e.drive cs := by
  induction cs generalizing e with
  | nil =>
    rw [drive, he] at h
    cases h
  | cons c cs ih =>
    rw [List.cons_append]
    cases hc : (e.handle c).1.terminated with
    | true => rw [drive_cons_of_terminated hc, drive_cons_of_terminated hc]
    | false =>
      rw [drive_cons_of_not_terminated hc] at h ⊢
      rw [drive_cons_of_not_terminated hc, ih hc h]

/-- Driving by commands that do not end the engine, and then by others: all of them are handled, one
behind the other.

**Proof sketch.** Induction on the first commands. None of them ends the engine, so each is handled
and the rest is driven further. -/
lemma drive_append_of_not_terminated {e : Engine} {cs : List Command}
    (h : (e.drive cs).1.terminated = false) (ds : List Command) :
    e.drive (cs ++ ds) =
      (((e.drive cs).1.drive ds).1, (e.drive cs).2 ++ ((e.drive cs).1.drive ds).2) := by
  induction cs generalizing e with
  | nil => rfl
  | cons c cs ih =>
    rw [List.cons_append]
    cases hc : (e.handle c).1.terminated with
    | true =>
      rw [drive_cons_of_terminated hc, hc] at h
      cases h
    | false =>
      rw [drive_cons_of_not_terminated hc] at h
      rw [drive_cons_of_not_terminated hc, drive_cons_of_not_terminated hc, ih h]
      simp only [List.append_assoc]

end Engine

/-- A state is terminal exactly if it gives an outcome. -/
lemma Outcome.isSome_ofState? (state : EngineState) : (ofState? state).isSome = state.terminal := by
  match state with
  | .idle | .suspended _ | .stopped | .finished .endOfProgram | .finished .crashed => rfl

/-- The state of an engine that takes commands gives none. -/
lemma Engine.ofState?_eq_none {e : Engine} (h : e.terminated = false) :
    Outcome.ofState? e.state = none := by
  rw [← Option.not_isSome_iff_eq_none, Outcome.isSome_ofState?]
  exact Bool.eq_false_iff.1 h

/-! ## Output -/

namespace SessionTrace

/-- That a command was decoded is no write, so the writes are those behind it. -/
@[simp]
lemma writes_command_cons (c : Command) (t : List SessionTrace) :
    writes (command c :: t) = writes t := rfl

/-- The writes of traces one behind the other are those of the first and then those of the second.
-/
@[simp]
lemma writes_append (t t' : List SessionTrace) : writes (t ++ t') = writes t ++ writes t' :=
  List.filterMap_append

end SessionTrace

namespace Session

/-- An output that takes every write takes the frames of an event. -/
lemma writeEvent_of_fresh {s : Session} {e : Event} {bytes : Bytes} (h : s.output = .fresh none)
    (he : e.encode = .ok bytes) : s.writeEvent e = (s, [.event e, .write bytes]) := by
  obtain ⟨engine, reader, outcome, output, endsOutput⟩ := s
  obtain rfl : output = .fresh none := h
  rw [writeEvent, he]
  rfl

/-- An output that takes every write writes each event once.

**Proof sketch.** Induction on the trace. Each event can be written, and the sink takes its bytes
and is as new as before. -/
lemma passOn_of_fresh {s : Session} (h : s.output = .fresh none) {trace : List Emission}
    (ht : Emission.AllEncode trace) :
    (s.passOn trace).1 = s ∧
      (SessionTrace.writes (s.passOn trace).2).map .ok =
        (Emission.events trace).map Event.encode := by
  induction trace with
  | nil => exact ⟨rfl, rfl⟩
  | cons x trace ih =>
    cases x with
    | log entry => exact ih ht
    | event e =>
      obtain ⟨bytes, he⟩ := ht e List.mem_cons_self
      obtain ⟨hs, hw⟩ := ih fun e' he' => ht e' (List.mem_cons_of_mem e he')
      simp only [passOn, writeEvent_of_fresh h he]
      exact ⟨hs, congrArg₂ List.cons he.symm hw⟩

/-! ## The commands in the reader -/

/-- The session is *open*: it has not ended, its engine takes commands, and its output takes every
write. -/
structure Open (s : Session) : Prop where
  /-- It has not ended. -/
  outcome : s.outcome = none
  /-- Its engine takes commands. -/
  live : s.engine.terminated = false
  /-- Its output takes every write. -/
  output : s.output = .fresh none

/-- What has come of a session *follows* from driving an engine by commands: the writes are those of
the events, one each, the engine is the one that was driven, and the outcome is that of its state.
If there is none, the session is still open and its reader holds the given bytes. -/
structure Follows (e : Engine) (cs : List Command) (last : Reader)
    (result : Session × List SessionTrace) :
    Prop where
  /-- Each event is written once, in order. -/
  writes : (SessionTrace.writes result.2).map .ok =
    (Emission.events (e.drive cs).2).map Event.encode
  /-- The engine is the one that was driven. -/
  engine : result.1.engine = (e.drive cs).1
  /-- The outcome is that of the engine. -/
  outcome : result.1.outcome = Outcome.ofState? result.1.engine.state
  /-- No failed write waits to be reported. -/
  settled : result.1.settle = (result.1, [])
  /-- While there is no outcome, the output takes every write. -/
  output : result.1.outcome = none → result.1.output = .fresh none
  /-- While there is no outcome, the bytes that wait are those given. -/
  reader : result.1.outcome = none → result.1.reader = last

/-- An output that takes every write has no failed one. -/
lemma settle_of_fresh {s : Session} (h : s.output = .fresh none) : s.settle = (s, []) := by
  rw [settle, h]
  rfl

/-- Without an outcome, the session is open, as its output and engine are those of an open one. -/
lemma Follows.isOpen {e : Engine} {cs : List Command} {last : Reader}
    {result : Session × List SessionTrace}
    (h : Follows e cs last result) (ho : result.1.outcome = none) : Open result.1 where
  outcome := ho
  live := by
    rw [Engine.terminated, ← Outcome.isSome_ofState?, ← h.outcome, ho]
    rfl
  output := h.output ho

/-- Nothing follows from no command: an open session has its engine and its reader as they are. -/
lemma Open.follows_nil {s : Session} (h : Open s) : Follows s.engine [] s.reader (s, []) where
  writes := rfl
  engine := rfl
  outcome := h.outcome.trans (Engine.ofState?_eq_none h.live).symm
  settled := settle_of_fresh h.output
  output _ := h.output
  reader _ := rfl

/-- Closing a session with an output that takes every write keeps its engine and writes nothing. -/
lemma close_of_fresh {s : Session} (ho : s.outcome = none) (hs : s.output = .fresh none)
    (outcome : Outcome) :
    (s.close outcome).1.engine = s.engine ∧ (s.close outcome).1.outcome = some outcome ∧
      SessionTrace.writes (s.close outcome).2 = [] ∧
      (s.close outcome).1.settle = ((s.close outcome).1, []) := by
  obtain ⟨engine, reader, outcome', output, endsOutput⟩ := s
  obtain rfl : outcome' = none := ho
  obtain rfl : output = .fresh none := hs
  refine ⟨rfl, rfl, ?_, ?_⟩
  · simp only [close, Option.isSome_none, Bool.false_eq_true, if_false]
    split_ifs <;> rfl
  · cases endsOutput <;> rfl

/-- A session that takes up the command of an item follows from handling it.

**Proof sketch.** Passing on the events writes their frames, as the output is new and each event has
an encoding. If the engine has ended the session is closed with the outcome of its state, which
writes nothing. -/
lemma takeItem_follows {s : Session} (h : Open s) (c : Command) :
    Follows s.engine [c] s.reader (s.takeItem (.value c)) := by
  obtain ⟨hs, hw⟩ := passOn_of_fresh (s := { s with engine := (s.engine.handle c).1 }) h.output
    (Engine.allEncode_handle s.engine c)
  have hd := s.engine.drive_singleton c
  simp only [takeItem, took, hs]
  cases ho : Outcome.ofState? (s.engine.handle c).1.state with
  | none =>
    simp only [closeIfOver, ho]
    exact {
      writes := by rw [hd, ← hw, List.append_nil, SessionTrace.writes_command_cons]
      engine := by rw [hd]
      outcome := h.outcome.trans ho.symm
      settled := settle_of_fresh h.output
      output := fun _ => h.output
      reader := fun _ => rfl }
  | some outcome =>
    simp only [closeIfOver, ho]
    obtain ⟨he, ho', hw', hset⟩ :=
      close_of_fresh (s := { s with engine := (s.engine.handle c).1 }) h.outcome h.output outcome
    exact {
      writes := by
        rw [hd, ← hw, List.cons_append, SessionTrace.writes_command_cons,
          SessionTrace.writes_append, hw', List.append_nil]
      engine := by rw [hd, he]
      outcome := by rw [ho', he, ho]
      settled := hset
      output := fun hn => by rw [ho'] at hn; cases hn
      reader := fun hn => by rw [ho'] at hn; cases hn }

/-- What follows from commands, and then from others if there is no outcome, follows from all of
them.

**Proof sketch.** By whether there is an outcome behind the first commands. If there is none the
engine is still open, and driving goes on with the others. If there is one, driving has stopped as
well, and the session does nothing more. -/
lemma Follows.append {e : Engine} {cs ds : List Command} {mid last : Reader}
    {r r' : Session × List SessionTrace} (h : Follows e cs mid r) (he : e.terminated = false)
    (hopen : r.1.outcome = none → Follows r.1.engine ds last r')
    (hover : r.1.outcome ≠ none → r' = (r.1, [])) :
    Follows e (cs ++ ds) last (r'.1, r.2 ++ r'.2) := by
  by_cases ho : r.1.outcome = none
  · have h' := hopen ho
    have hlive : (e.drive cs).1.terminated = false := h.engine ▸ (h.isOpen ho).live
    have hd := Engine.drive_append_of_not_terminated hlive ds
    exact {
      writes := by
        rw [hd, SessionTrace.writes_append, List.map_append, h.writes, h'.writes, h.engine,
          Emission.events_append, List.map_append]
      engine := by rw [hd, h'.engine, h.engine]
      outcome := h'.outcome
      settled := h'.settled
      output := h'.output
      reader := h'.reader }
  · obtain rfl := hover ho
    have ht : (e.drive cs).1.terminated = true := by
      rw [Engine.terminated, ← Outcome.isSome_ofState?, ← h.engine, ← h.outcome]
      exact Option.isSome_iff_ne_none.2 ho
    rw [List.append_nil]
    have hd := Engine.drive_append_of_terminated he ht ds
    exact {
      writes := by rw [hd, h.writes]
      engine := by rw [hd, h.engine]
      outcome := h.outcome
      settled := h.settled
      output := fun hn => absurd hn ho
      reader := fun hn => absurd hn ho }

/-- A session that has ended pumps nothing, even if bytes are left in its reader. -/
lemma pump_of_outcome {s : Session} (h : s.outcome ≠ none) : s.pump = (s, []) := by
  rw [pump, if_pos (Option.isSome_iff_ne_none.2 h)]

/-- A reader that gives no item leaves nothing to be done. -/
lemma pump_of_next?_eq_none {s : Session} (h : s.reader.next? Command.format = none) :
    s.pump = (s, []) := by
  rw [pump]
  split_ifs
  · rfl
  · split
    case h_1 => rfl
    case h_2 hn =>
      rw [h] at hn
      cases hn

/-- A reader that gives an item has it taken up, and then all others that it still gives.

**Proof sketch.** By the branches of `pump`, of which only the one with an item is open here. -/
lemma pump_of_next?_eq_some {s : Session} (ho : s.outcome = none) {item : Item Command}
    {reader : Reader} (h : s.reader.next? Command.format = some (item, reader)) :
    s.pump = ((takeItem { s with reader := reader } item).1.pump.1,
      (takeItem { s with reader := reader } item).2 ++
        (takeItem { s with reader := reader } item).1.pump.2) := by
  rw [pump, if_neg (by rw [ho]; exact Bool.false_ne_true)]
  split
  case h_1 hn =>
    rw [h] at hn
    cases hn
  case h_2 hn =>
    rw [h] at hn
    obtain ⟨rfl, rfl⟩ := Prod.mk.inj (Option.some.inj hn)
    rfl

/-- Pumping, item by item: what holds where nothing is taken up, and is kept when an item is taken
up before the rest, holds of all of it.

**Proof sketch.** Induction along the recursion of `pump`, whose three cases are that the session is
over, that no item is there, and that one is taken up before the rest. -/
theorem pump_induction {motive : Session → Session × List SessionTrace → Prop}
    (rest : ∀ s, motive s (s, []))
    (item : ∀ s item reader, s.outcome = none →
      s.reader.next? Command.format = some (item, reader) →
      motive (takeItem { s with reader := reader } item).1
      (takeItem { s with reader := reader } item).1.pump →
      motive s ((takeItem { s with reader := reader } item).1.pump.1,
        (takeItem { s with reader := reader } item).2 ++
        (takeItem { s with reader := reader } item).1.pump.2))
    (s : Session) : motive s s.pump := by
  induction s using Session.pump.induct with
  | case1 s hover =>
    rw [pump, if_pos hover]
    exact rest s
  | case2 s _ hnext =>
    rw [pump_of_next?_eq_none hnext]
    exact rest s
  | case3 s hrunning taken reader hnext _ ih =>
    have ho : s.outcome = none := Option.not_isSome_iff_eq_none.1 hrunning
    rw [pump_of_next?_eq_some ho hnext]
    exact item s taken reader ho hnext ih

/-- **The commands that wait**: an open session that pumps its reader follows from driving its
engine by the commands that the reader gives.

**Proof sketch.** Induction on the commands. If the first one ends the engine, the session has an
outcome and pumps no further, and driving stops there as well. Otherwise the session is open again.
-/
theorem pump_follows {s : Session} (h : Open s) {cs : List Command} {last : Reader}
    (hd : s.reader.drain Command.format = (cs.map .value, last)) :
    Follows s.engine cs last s.pump := by
  induction cs generalizing s with
  | nil =>
    obtain ⟨hn, rfl⟩ := Reader.next?_of_drain_eq_nil hd
    rw [pump_of_next?_eq_none hn]
    exact h.follows_nil
  | cons c cs ih =>
    obtain ⟨r, hn, hd⟩ := Reader.next?_of_drain_eq_cons hd
    have ht := takeItem_follows (s := { s with reader := r }) ⟨h.outcome, h.live, h.output⟩ c
    rw [pump_of_next?_eq_some h.outcome hn]
    exact ht.append h.live (fun ho => ih (ht.isOpen ho) (by rw [ht.reader ho]; exact hd))
      pump_of_outcome

/-! ## Chunks -/

/-- A chunk that comes in at an open session follows from driving its engine by the commands that
the reader gives with it. -/
lemma happen_received_follows {s : Session} (h : Open s) {chunk : Bytes} {cs : List Command}
    {last : Reader} (hd : (s.reader.push chunk).drain Command.format = (cs.map .value, last)) :
    Follows s.engine cs last (s.happen (.received chunk)) := by
  have hp :=
    pump_follows (s := { s with reader := s.reader.push chunk }) ⟨h.outcome, h.live, h.output⟩ hd
  have hr : s.respond (.received chunk) = pump { s with reader := s.reader.push chunk } :=
    if_neg (by rw [h.outcome]; exact nofun)
  simp only [happen, hr, hp.settled, List.append_nil]
  exact hp

/-- A session that has ended reads nothing, of whatever chunks come in. -/
lemma run_received_of_outcome {s : Session} (h : s.outcome ≠ none) (hs : s.settle = (s, []))
    (chunks : List Bytes) : s.run (chunks.map .received) = (s, []) := by
  induction chunks with
  | nil => rfl
  | cons chunk chunks ih =>
    have hr : s.respond (.received chunk) = (s, []) := if_pos (Option.isSome_iff_ne_none.2 h)
    simp only [List.map_cons, run, happen, hr, hs, ih, List.append_nil]

/-- **The commands that chunks give**: a run of an open session over chunks follows from driving its
engine by the commands that its reader gives for them.

**Proof sketch.** Induction on the chunks. The commands are divided into those of the first chunk
and the others. A session that has an outcome behind the first chunk takes no other. -/
theorem run_follows {s : Session} (h : Open s) {chunks : List Bytes} {cs : List Command}
    {last : Reader} (hf : s.reader.feed Command.format chunks = (cs.map .value, last)) :
    Follows s.engine cs last (s.run (chunks.map .received)) := by
  induction chunks generalizing s cs with
  | nil =>
    obtain ⟨hcs, rfl⟩ := Prod.mk.inj hf
    obtain rfl := List.map_eq_nil_iff.1 hcs.symm
    exact h.follows_nil
  | cons chunk chunks ih =>
    obtain ⟨hcs, hlast⟩ := Prod.mk.inj hf
    obtain ⟨first, others, rfl, hfirst, hothers⟩ := List.map_eq_append_iff.1 hcs.symm
    have hx := happen_received_follows h (Prod.ext hfirst.symm rfl)
    refine hx.append h.live (fun ho => ih (hx.isOpen ho) ?_) fun ho =>
      run_received_of_outcome ho hx.settled chunks
    rw [hx.reader ho]
    exact Prod.ext hothers.symm hlast

/-- **A script in chunks**: a session at its start, with an output that takes every write, that is
fed the stream of a script in chunks writes exactly the events that its engine lets out when it is
driven by the commands one by one, as their frames carry them, each event once and in order. Its
engine ends as the one that was driven, and its outcome is that of the final state. The script has
no string that goes on in the next command, and no cut is a joint of its strings. Only strings that
have a surrogate without its partner are carried as other ones, see `Command.carried_inputString`.

**Proof sketch.** By `Script.feed_encode` the chunks give the commands of the script one for one,
and by `run_follows` the session follows from driving its engine by them. -/
theorem run_start_eq_drive (machine : Machine) (logCommands endsOutput : Bool) {cs : Script}
    {stream : Bytes} {chunks : List Bytes} (he : Script.encode cs = .ok stream)
    (hc : cs.IsChain fun c d => Command.runsInto c d = false) (hf : chunks.flatten = stream)
    (hj : ∀ p, Cut chunks p → ¬ Script.Joint cs p) {s : Session} {trace : List SessionTrace}
    (hr : (start (.start machine logCommands) endsOutput none).run (chunks.map .received) =
      (s, trace))
    {e : Engine} {emitted : List Emission}
    (hd : (Engine.start machine logCommands).drive (cs.map Command.carried) = (e, emitted)) :
    (SessionTrace.writes trace).map .ok = (Emission.events emitted).map Event.encode ∧
      s.engine = e ∧ s.outcome = Outcome.ofState? e.state := by
  have h := run_follows (s := start (.start machine logCommands) endsOutput none) ⟨rfl, rfl, rfl⟩
    (Script.feed_encode he hc hf hj)
  rw [hr] at h
  have hw := h.writes
  have hengine := h.engine
  have hd :
      (start (.start machine logCommands) endsOutput none).engine.drive (cs.map Command.carried) =
    (e, emitted) := hd
  rw [hd] at hw hengine
  exact ⟨hw, hengine, h.outcome.trans (congrArg (fun e => Outcome.ofState? e.state) hengine)⟩

/-- A program that asks for a key, and a breakpoint behind it: the frames of the key and of the
breakpoint are cut, one chunk is empty, and behind the stop there is a step in the same chunk. -/
theorem run_start_eq_drive_of_key :
    ∃ s trace,
      (start (.start (.initial [(0, .readKey)] 0 {}) false) true none).run
        ([[0x65, 0x69], [], [0x61, 0x62, 0], [1, 0x65], [0x71, 0x65]].map .received) = (s, trace) ∧
      ((SessionTrace.writes trace).map .ok : List (Except Fault Bytes)) =
        [.ok [0x6b], .ok [0x68, 0, 1]] ∧
      s.outcome = some .stopped := by
  have he : Script.encode [.step, .inputKey "a", .setBreakpoint 1, .step, .stop, .step] =
      .ok [0x65, 0x69, 0x61, 0x62, 0, 1, 0x65, 0x71, 0x65] := rfl
  have hj : ∀ p, Cut [[0x65, 0x69], [], [0x61, 0x62, 0], [1, 0x65], [0x71, 0x65]] p →
      ¬ Script.Joint [.step, .inputKey "a", .setBreakpoint 1, .step, .stop, .step] p := by
    rintro p - ⟨before, text, after, bytes, j, hcs, -⟩
    have hm :
        Command.inputString text ∈ [.step, .inputKey "a", .setBreakpoint 1, .step, .stop,
          .step] := by
      rw [hcs]
      exact List.mem_append_right before List.mem_cons_self
    simp at hm
  obtain ⟨hw, -, ho⟩ := run_start_eq_drive (.initial [(0, .readKey)] 0 {}) false true he
    (by simp [Command.runsInto]) rfl hj rfl rfl
  exact ⟨_, _, rfl, hw.trans rfl, ho.trans rfl⟩

/-- **A string that is half of a surrogate pair** reaches the machine that is driven by it as it is.
The machine of a session gets the replacement character instead, which is what its frame carries. So
the two engines end differently. -/
theorem not_run_start_eq_drive_of_lone_surrogate :
    ∃ cs stream, cs = [.step, .inputString ⟨[0xd800]⟩] ∧ Script.encode cs = .ok stream ∧
      cs.IsChain (fun c d => Command.runsInto c d = false) ∧
      (∀ p, Cut [stream] p → ¬ Script.Joint cs p) ∧
      ((start (.start (.initial [(0, .readString)] 0 {}) false) true none).run
        [.received stream]).1.engine.machine.lastString = some (Utf16.ofString "\ufffd") ∧
      ((Engine.start (.initial [(0, .readString)] 0 {}) false).drive cs).1.machine.lastString =
        some ⟨[0xd800]⟩ ∧
      ((start (.start (.initial [(0, .readString)] 0 {}) false) true none).run
        [.received stream]).1.engine ≠
        ((Engine.start (.initial [(0, .readString)] 0 {}) false).drive cs).1 := by
  have hj : ∀ p, ¬ Script.Joint [.step, .inputString ⟨[0xd800]⟩] p := by
    rintro p ⟨before, text, after, bytes, j, hcs, -, hj, hlt, -⟩
    have hm : Command.inputString text ∈ [.step, .inputString ⟨[0xd800]⟩] := by
      rw [hcs]
      exact List.mem_append_right before List.mem_cons_self
    obtain rfl : text = ⟨[0xd800]⟩ := by simpa using hm
    have hsize : (Utf8.encode (Utf16.repaired ⟨[0xd800]⟩)).length = 3 := rfl
    rw [hsize, Chunk.maxSize] at hlt
    omega
  have hc : [Command.step, .inputString ⟨[0xd800]⟩].IsChain
      (fun c d => Command.runsInto c d = false) := by
    simp [Command.runsInto]
  have h := run_follows (s := start (.start (.initial [(0, .readString)] 0 {}) false) true none)
    ⟨rfl, rfl, rfl⟩ (Script.feed_encode rfl hc (List.flatten_singleton) fun p _ => hj p)
  have hstring : ((start (.start (.initial [(0, .readString)] 0 {}) false) true none).run
      [.received _]).1.engine.machine.lastString = some (Utf16.ofString "\ufffd") :=
    (congrArg (fun e : Engine => e.machine.lastString) h.engine).trans (by decide)
  refine ⟨_, _, rfl, rfl, hc, fun p _ => hj p, hstring, by decide, fun heq => ?_⟩
  have hlast := hstring.symm.trans (congrArg (fun e : Engine => e.machine.lastString) heq)
  revert hlast
  decide

end Session

end DebugWire
