import DebugWire.Proofs.Session.Outcome

set_option relaxedAutoImplicit false
set_option autoImplicit false

/-!
# What a session writes behind its end

Each event that a session lets out is one call that writes to its output. A session that has ended
because its engine has come to its end lets out none: the relay is detached, whatever the machine
prints. A session that has lost a stream leaves its engine where it was, and the relay stays
attached. So each text that the machine prints later is written still, also to an output that the
session has ended itself.

## Main definitions

* `DebugWire.SessionTrace.events` — the events that a trace tells of.
* `DebugWire.Session.Happening.texts` — the texts that the machine prints by itself.
* `DebugWire.Session.Relays` — what a session lets out and writes is what the machine prints.

## Main results

* `DebugWire.Session.relays_happen`, `DebugWire.Session.relays_run` — what happens to a session that
  is over.
* `DebugWire.Session.events_run_of_outcome` — which sessions are silent behind their end.
-/

namespace DebugWire

/-! ## Traces -/

namespace SessionTrace

/-- The event that was let out. -/
def event? : SessionTrace → Option Event
  | event e => some e
  | _ => none

/-- The events that a trace tells of, in order. -/
def events (trace : List SessionTrace) : List Event := trace.filterMap event?

/-- The events of two traces are those of the first and then those of the second. -/
@[simp]
lemma events_append (t t' : List SessionTrace) : events (t ++ t') = events t ++ events t' :=
  List.filterMap_append

end SessionTrace

namespace Session

open SessionTrace (events writes)

variable {s : Session} {x : Happening} {xs ys : List Happening}

/-- The text that the machine prints by itself. -/
def Happening.text? : Happening → Option Printed
  | printed p => some p
  | _ => none

/-- The texts that the machine prints by itself, in order. -/
def Happening.texts (xs : List Happening) : List Printed := xs.filterMap text?

/-! ## One happening -/

/-- What is passed on is let out, event by event, whatever becomes of the writes.

**Proof sketch.** Induction on what is let out: an event counts whether it is written, refused by
the output or has no encoding. -/
lemma events_passOn (s : Session) (trace : List Emission) :
    events (s.passOn trace).2 = Emission.events trace := by
  induction trace generalizing s with
  | nil => rfl
  | cons x trace ih =>
    cases x with
    | log entry => exact ih s
    | event e =>
      have hw : events (s.writeEvent e).2 = [e] := by
        unfold writeEvent
        cases e.encode with
        | error f => rfl
        | ok bytes =>
          dsimp only
          split_ifs <;> rfl
      rw [passOn, SessionTrace.events_append, hw, ih]
      rfl

/-- A session that is over *relays* what the machine prints: these are the texts whose events it
lets out, as far as its relay lets them through, and if its output takes every write, the frames of
these events are what it writes. -/
structure Relays (s : Session) (xs : List Happening) (result : Session × List SessionTrace) :
    Prop where
  events : SessionTrace.events result.2 = s.engine.relay.events (Happening.texts xs)
  writes : s.output = .fresh none → (∀ message, .outputFailed message ∉ xs) →
    result.1.output = .fresh none ∧
    (SessionTrace.writes result.2).map .ok = (SessionTrace.events result.2).map Event.encode

/-- Relaying what one happening brings, and then what others do, by an engine that stays.

**Proof sketch.** The engine stays as it is meanwhile, so the events of all texts are those of the
first and then those of the others. The writes are put together in the same way, if no failure of
the output was among the happenings. -/
lemma Relays.append {r r' : Session × List SessionTrace} (hs : Stays s r) (h : Relays s xs r)
    (h' : Relays r.1 ys r') : Relays s (xs ++ ys) (r'.1, r.2 ++ r'.2) where
  events := by
    rw [SessionTrace.events_append, h.events, h'.events, hs.engine, Happening.texts,
      Happening.texts, Happening.texts, List.filterMap_append, Relay.events_append]
  writes := by
    intro ho hn
    obtain ⟨hout, hw⟩ := h.writes ho fun message hm => hn message (List.mem_append_left ys hm)
    obtain ⟨hout', hw'⟩ := h'.writes hout fun message hm => hn message (List.mem_append_right xs hm)
    refine ⟨hout', ?_⟩
    rw [SessionTrace.writes_append, SessionTrace.events_append, List.map_append, List.map_append,
      hw, hw']

/-- What leaves a session and lets nothing out relays nothing. -/
lemma relays_nil (s : Session) : Relays s [] (s, []) :=
  ⟨by rw [Relay.events]; split_ifs <;> rfl, fun ho _ => ⟨ho, rfl⟩⟩

/-- Notes relay nothing.

**Proof sketch.** A note is neither an event nor a write, and the output is as before unless it
fails. -/
lemma relays_notes {output : Sink} (hx : Happening.texts xs = [])
    (ho : s.output = .fresh none → (∀ message, .outputFailed message ∉ xs) → output = s.output)
    (notes : List Log) :
    Relays s xs ({ s with output := output }, notes.map .log) where
  events := by
    have hn : SessionTrace.events (notes.map .log) = [] :=
      List.filterMap_eq_nil_iff.2 (by simp [SessionTrace.event?])
    rw [hx, hn]
    exact (relays_nil s).events
  writes := by
    intro hs hxs
    have he : SessionTrace.events (notes.map .log) = [] :=
      List.filterMap_eq_nil_iff.2 (by simp [SessionTrace.event?])
    have hw : SessionTrace.writes (notes.map .log) = [] :=
      List.filterMap_eq_nil_iff.2 (by simp [SessionTrace.write?])
    refine ⟨(ho hs hxs).trans hs, ?_⟩
    rw [hw, he]
    rfl

/-- Taking up a failed write relays nothing, for it is only noted once a session is over. -/
lemma relays_settle (ho : s.outcome ≠ none) : Relays s [] s.settle := by
  obtain ⟨output, notes, -, hout, hs⟩ := settle_of_over ho
  rw [hs]
  exact relays_notes rfl (fun hf _ => hout hf) notes

/-- What a session that is over responds with.

**Proof sketch.** A text that is printed is relayed by the engine as it is attached. Everything else
comes to notes, by `respond_of_over`. -/
lemma relays_respond (ho : s.outcome ≠ none) (x : Happening) : Relays s [x] (s.respond x) := by
  by_cases hx : ∃ p, x = .printed p
  · obtain ⟨p, rfl⟩ := hx
    have hevents : events (s.respond (.printed p)).2 = s.engine.relay.events [p] :=
      (events_passOn _ _).trans (Emission.events_map_event _)
    refine ⟨hevents, fun hout _ => ?_⟩
    obtain ⟨hs, hw⟩ := passOn_of_fresh hout (Engine.allEncode_relayed s.engine [p])
    have hrespond : s.respond (.printed p) = s.passOn (s.engine.relayed [p]) := rfl
    rw [hrespond, hs, hw, events_passOn]
    exact ⟨hout, rfl⟩
  · obtain ⟨output, notes, -, hout, hs⟩ := respond_of_over ho fun p hp => hx ⟨p, hp⟩
    have htexts : Happening.texts [x] = [] := by
      cases x with
      | printed p => exact absurd ⟨p, rfl⟩ hx
      | _ => rfl
    rw [hs]
    exact relays_notes htexts
      (fun _ hn => hout fun message hm => hn message (List.mem_singleton.2 hm.symm)) notes

/-- **One happening** to a session that is over relays the text that it prints, and nothing else. -/
theorem relays_happen (ho : s.outcome ≠ none) (x : Happening) : Relays s [x] (s.happen x) := by
  have hstays : Stays s (s.respond x) := stays_respond ho x
  exact (relays_respond ho x).append hstays (relays_settle (by rw [hstays.outcome]; exact ho))

/-- A session that is over relays what the machine prints, and nothing else, however much happens.
-/
theorem relays_run (ho : s.outcome ≠ none) (xs : List Happening) : Relays s xs (s.run xs) := by
  induction xs generalizing s with
  | nil => exact relays_nil s
  | cons x xs ih =>
    have hstays := stays_happen ho x
    exact (relays_happen ho x).append hstays (ih (by rw [hstays.outcome]; exact ho))

/-! ## Sessions from their start -/

/-- The relay of a session that is over is attached exactly if the session has lost a stream.

**Proof sketch.** By the states in which engine and outcome agree. Only the loss of a stream leaves
the engine attached; every other end detaches it. -/
lemma Agrees.attached (h : Agrees s) {outcome : Outcome} (ho : s.outcome = some outcome) :
    s.engine.relay.attached = decide (outcome = .disconnected) := by
  cases h with
  | running ho' =>
    rw [ho] at ho'
    cases ho'
  | cutOff ho' he =>
    obtain rfl := Option.some.inj (ho.symm.trans ho')
    exact he.attached
  | ended ho' hs he =>
    obtain rfl := Option.some.inj (ho.symm.trans ho')
    have hd : outcome ≠ .disconnected := fun hd => Outcome.ofState?_ne_disconnected _ (hd ▸ hs)
    rw [he.detached, decide_eq_false hd]

/-- **What a session writes behind its end**, each event being one call that writes.
* A session that has lost a stream lets out each text that the machine prints, an empty one
  excepted. Any other session lets out nothing.
* So exactly the sessions that have not lost a stream are silent behind their end.
* While the output takes every write, the frames of these events are what is written.

**Proof sketch.** By `relays_run` what is let out is what the engine relays, and the engine is
attached exactly if the outcome is that of a lost stream. One text that is printed tells the two
cases apart. -/
theorem events_run_of_outcome (machine : Machine) (logCommands endsOutput : Bool)
    (failure : Option String) (xs : List Happening) {s : Session} {trace : List SessionTrace}
    (hr : (start (.start machine logCommands) endsOutput failure).run xs = (s, trace))
    {outcome : Outcome} (ho : s.outcome = some outcome) :
    (∀ ys, events (s.run ys).2 =
      if outcome = .disconnected then
        ((Happening.texts ys).filter fun p => !p.2.isEmpty).map fun p => p.1.event p.2
      else []) ∧
    ((∀ ys, events (s.run ys).2 = []) ↔ outcome ≠ .disconnected) ∧
    (s.output = .fresh none → ∀ ys, (∀ message, .outputFailed message ∉ ys) →
      (writes (s.run ys).2).map .ok = (events (s.run ys).2).map Event.encode) := by
  have hagrees : Agrees s := by
    have hc := coherent_run (coherent_start machine logCommands endsOutput failure) xs
    rw [hr] at hc
    exact hc.agrees
  have hover : s.outcome ≠ none := by
    rw [ho]
    exact nofun
  have hevents (ys : List Happening) : events (s.run ys).2 =
      if outcome = .disconnected then
        ((Happening.texts ys).filter fun p => !p.2.isEmpty).map fun p => p.1.event p.2
      else [] := by
    rw [(relays_run hover ys).events, Relay.events, hagrees.attached ho]
    simp only [decide_eq_true_eq]
  refine ⟨hevents, ⟨fun hsilent hd => ?_, fun hd ys => ?_⟩, fun hout ys hn => ?_⟩
  · have hlate := hevents [.printed (.output, "a")]
    rw [hsilent, if_pos hd] at hlate
    exact absurd hlate (by decide)
  · rw [hevents, if_neg hd]
  · exact ((relays_run hover ys).writes hout hn).2

/-- A session whose input has ended: behind that a text is printed, and then an empty one. -/
theorem events_run_of_outcome_of_inputEnded :
    ∃ s trace,
      (start (.start (.initial [] 0 {}) false) false none).run [.inputEnded] = (s, trace) ∧
      s.outcome = some .disconnected ∧
      events (s.run [.printed (.output, "a"), .received [0x65], .printed (.output, "")]).2 =
        [.output "a"] ∧
      ((writes (s.run [.printed (.output, "a"), .received [0x65],
        .printed (.output, "")]).2).map .ok : List (Except Fault Bytes)) =
        [.ok [0x6f, 1, 0x61]] := by
  obtain ⟨hevents, -, hwrites⟩ :=
    events_run_of_outcome (.initial [] 0 {}) false false none [.inputEnded] rfl rfl
  have hlate := hevents [.printed (.output, "a"), .received [0x65], .printed (.output, "")]
  refine ⟨_, _, rfl, rfl, hlate.trans rfl, (hwrites rfl _ ?_).trans ?_⟩
  · simp
  · rw [hlate]
    decide +kernel

/-- After the input has ended, a text that the machine prints is written. If the session has ended
its output, the event of that text is let out to an output that has ended. -/
theorem not_silent_of_inputEnded :
    (∃ s, ((start (.start (.initial [] 0 {}) false) false none).run [.inputEnded]).1 = s ∧
      s.outcome = some .disconnected ∧
      writes (s.run [.printed (.output, "late")]).2 = [[0x6f, 4, 0x6c, 0x61, 0x74, 0x65]]) ∧
    (∃ s, ((start (.start (.initial [] 0 {}) false) true none).run [.inputEnded]).1 = s ∧
      s.outcome = some .disconnected ∧ s.output.isEnded = true ∧
      events (s.run [.printed (.output, "late")]).2 = [.output "late"]) :=
  ⟨⟨_, rfl, rfl, by decide +kernel⟩, ⟨_, rfl, rfl, rfl, by decide⟩⟩

end Session

end DebugWire
