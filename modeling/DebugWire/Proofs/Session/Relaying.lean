import DebugWire.Proofs.Session.Serving
import DebugWire.Proofs.Session.Silence

set_option relaxedAutoImplicit false
set_option autoImplicit false

/-!
# Sessions as the engine alone

A session whose input comes in as chunks of one command each, and does not end, does what its engine
does by itself with the commands and the texts that the machine prints, in the order in which they
come. Of the commands these are the ones up to the first that brings the engine to its end. Each
event of the engine is one chunk that the session writes, and it writes nothing else, also behind
its end.

## Main definitions

* `DebugWire.Engine.heeded` — the commands up to the first that brings the engine to its end.
* `DebugWire.Engine.Yields` — what an engine comes to with commands and texts.
* `DebugWire.Session.Relayed` — what a session has done that relays its engine.

## Main results

* `DebugWire.Engine.heeded_append_of_live`, `DebugWire.Engine.heeded_append_of_over` — the commands
  behind others.
* `DebugWire.Session.relayed_happen`, `DebugWire.Session.relayed_run` — one happening, and one after
  the other.
-/

namespace DebugWire

/-! ## Engines -/

namespace Engine

variable {e e' e'' : Engine} {cs cs' ds : List Command} {ps ps' : List Printed}
    {evs evs' : List Event}

/-- The commands up to and including the first that brings the engine to its end. -/
def heeded (e : Engine) : List Command → List Command
  | [] => []
  | c :: cs => c :: if (e.handle c).1.terminated then [] else (e.handle c).1.heeded cs

/-- Commands that are heeded and leave the engine live have all that is heeded of others behind
them.

**Proof sketch.** Induction on the first commands. One that is heeded and ends the engine would be
the last, and then the engine after all of them would not be live. -/
lemma heeded_append_of_live (h : e.heeded cs = cs) (ht : (e.after cs).terminated = false)
    (ds : List Command) :
    e.heeded (cs ++ ds) = cs ++ (e.after cs).heeded ds := by
  induction cs generalizing e with
  | nil => rfl
  | cons c cs ih =>
    rw [heeded] at h
    rw [List.cons_append, heeded, List.cons_append, after_cons]
    split_ifs at h ⊢ with hc
    · rw [after_cons, ← (List.cons.inj h).2] at ht
      exact absurd (hc.symm.trans ht) nofun
    · rw [ih (List.cons.inj h).2 ht]

/-- Commands that are heeded and bring the engine to its end have nothing behind them that is
heeded. -/
lemma heeded_append_of_over (he : e.terminated = false) (h : e.heeded cs = cs)
    (ht : (e.after cs).terminated = true) (ds : List Command) : e.heeded (cs ++ ds) = cs := by
  induction cs generalizing e with
  | nil => exact absurd (he.symm.trans ht) nofun
  | cons c cs ih =>
    rw [heeded] at h
    rw [List.cons_append, heeded]
    split_ifs at h ⊢ with hc
    · exact h
    · rw [ih (Bool.eq_false_iff.2 hc) (List.cons.inj h).2 ht]

/-- The command that is given. -/
def Happening.command? : Happening → Option Command
  | command c => some c
  | _ => none

/-- The text that the machine prints by itself. -/
def Happening.text? : Happening → Option Printed
  | printed p => some p
  | _ => none

/-- An engine *yields* events and comes to a state with commands and texts that the machine prints
by itself: it does so by itself when it is given them in some order, and nothing else. -/
def Yields (e : Engine) (cs : List Command) (ps : List Printed) (e' : Engine)
    (evs : List Event) : Prop :=
  ∃ ys : List Happening, ys.filterMap Happening.command? = cs ∧ ys.filterMap Happening.text? = ps ∧
    (∀ message, .report message ∉ ys) ∧ (e.run ys).1 = e' ∧ Emission.events (e.run ys).2 = evs

/-- With nothing an engine yields nothing, and stays as it is. -/
lemma yields_nil (e : Engine) : Yields e [] [] e [] :=
  ⟨[], rfl, rfl, fun _ => List.not_mem_nil, rfl, rfl⟩

/-- What an engine yields with one command are the events of handling it. -/
lemma yields_handle (e : Engine) (c : Command) :
    Yields e [c] [] (e.handle c).1 (Emission.events (e.handle c).2) :=
  ⟨[.command c], rfl, rfl, by simp, rfl, by simp [run, happen]⟩

/-- What an engine yields with one text is its event, if the relay is attached. -/
lemma yields_printed (e : Engine) (p : Printed) :
    Yields e [] [p] e (Emission.events (e.printed p).2) :=
  ⟨[.printed p], rfl, rfl, by simp, rfl, by simp [run, happen]⟩

/-- What an engine yields with commands and texts, and then with others. -/
lemma Yields.append (h : Yields e cs ps e' evs) (h' : Yields e' cs' ps' e'' evs') :
    Yields e (cs ++ cs') (ps ++ ps') e'' (evs ++ evs') := by
  obtain ⟨ys, rfl, rfl, hr, rfl, rfl⟩ := h
  obtain ⟨ys', rfl, rfl, hr', rfl, rfl⟩ := h'
  refine ⟨ys ++ ys', List.filterMap_append, List.filterMap_append, fun message hm => ?_,
    by rw [run_append], ?_⟩
  · exact (List.mem_append.1 hm).elim (hr message) (hr' message)
  · rw [run_append, Emission.events_append]

/-- An engine that rests yields nothing with texts, because its relay is detached. -/
lemma Rests.yields (h : Rests e) (ps : List Printed) : Yields e [] ps e [] := by
  induction ps with
  | nil => exact yields_nil e
  | cons p ps ih =>
    have hfirst := yields_printed e p
    have hsilent : Emission.events (e.printed p).2 = [] := h.events_happen (x := .printed p) nofun
    rw [hsilent] at hfirst
    exact hfirst.append ih

end Engine

/-! ## Sessions -/

namespace Session

open SessionTrace (commands events writes)

variable {s : Session} {x : Happening} {xs ys : List Happening}

/-- What a session that has not lost a stream has done when it has *relayed* its engine: it handled
commands, wrote a chunk for each event, and has not lost a stream. -/
structure Relayed (s : Session) (xs : List Happening) (result : Session × List SessionTrace) :
    Prop where
  serving : Serving result.1
  coherent : Coherent true result.1
  linked : result.1.outcome ≠ some .disconnected
  /-- The commands have brought its engine where it is. -/
  engine : result.1.engine = s.engine.after (commands result.2)
  /-- Its engine has done so by itself. -/
  yields : s.engine.Yields (commands result.2) (Happening.texts xs) result.1.engine
    (events result.2)
  /-- One chunk was written for each event. -/
  written : (writes result.2).filterMap Event.format.ofChunk? = events result.2
  /-- Behind the command that has brought the engine to its end it has handled none. -/
  heeded : s.outcome = none → s.engine.heeded (commands result.2) = commands result.2
  /-- Behind its end it has done nothing. -/
  isOver : s.outcome ≠ none → result.1.outcome = s.outcome ∧ result.1.engine = s.engine ∧
  commands result.2 = [] ∧
    writes result.2 = []

/-- Closing lets out no event, with whatever outcome. -/
lemma events_close (s : Session) (outcome : Outcome) : events (s.close outcome).2 = [] := by
  unfold close
  split_ifs <;> rfl

/-- Taking up a command lets out the events of the engine. -/
lemma events_takeItem (s : Session) (c : Command) :
    events (s.takeItem (.value c)).2 = Emission.events (s.engine.handle c).2 := by
  have hcommand (trace : List SessionTrace) : events (.command c :: trace) = events trace := rfl
  simp only [takeItem, took, closeIfOver]
  split <;> rw [List.cons_append, hcommand, SessionTrace.events_append, events_passOn]
  · rw [events_close, List.append_nil]
  · exact List.append_nil _

/-- A session that has nothing done relays nothing, and is as it should be if it was so before. -/
lemma relayed_nil (hs : Serving s) (hc : Coherent true s) (hl : s.outcome ≠ some .disconnected) :
    Relayed s [] (s, []) where
  serving := hs
  coherent := hc
  linked := hl
  engine := rfl
  yields := s.engine.yields_nil
  written := rfl
  heeded _ := rfl
  isOver _ := ⟨rfl, rfl, rfl, rfl⟩

/-- Relaying what one happening brings, and then what others do.

**Proof sketch.** The commands, the texts, the events and the frames are put behind each other. If
the session is over behind the first part, its engine has ended, and the second part adds no
command. -/
lemma Relayed.append {r r' : Session × List SessionTrace} (h : Relayed s xs r)
    (h' : Relayed r.1 ys r') :
    Relayed s (xs ++ ys) (r'.1, r.2 ++ r'.2) where
  serving := h'.serving
  coherent := h'.coherent
  linked := h'.linked
  engine := by rw [h'.engine, h.engine, SessionTrace.commands_append, Engine.after_append]
  yields := by
    rw [SessionTrace.commands_append, SessionTrace.events_append, Happening.texts,
      List.filterMap_append]
    exact h.yields.append h'.yields
  written := by
    rw [SessionTrace.writes_append, List.filterMap_append, h.written, h'.written,
      SessionTrace.events_append]
  heeded ho := by
    rw [SessionTrace.commands_append]
    by_cases ho' : r.1.outcome = none
    · have hlive := (h.coherent.live ho').terminated
      rw [h.engine] at hlive
      rw [Engine.heeded_append_of_live (h.heeded ho) hlive, ← h.engine, h'.heeded ho']
    · rw [(h'.isOver ho').2.2.1, List.append_nil, h.heeded ho]
  isOver ho := by
    obtain ⟨houtcome, hengine, hcommands, hwrites⟩ := h.isOver ho
    obtain ⟨houtcome', hengine', hcommands', hwrites'⟩ := h'.isOver (houtcome ▸ ho)
    refine ⟨houtcome'.trans houtcome, hengine'.trans hengine, ?_, ?_⟩
    · rw [SessionTrace.commands_append, hcommands, hcommands']
      rfl
    · rw [SessionTrace.writes_append, hwrites, hwrites']
      rfl

/-- The engine of a session that is over and has not lost a stream rests. -/
lemma Agrees.rests (h : Agrees s) (hl : s.outcome ≠ some .disconnected) (ho : s.outcome ≠ none) :
    Engine.Rests s.engine := by
  cases h with
  | running ho' => exact absurd ho' ho
  | cutOff ho' => exact absurd ho' hl
  | ended _ _ he => exact he

/-- An orderly happening that does not end the input does nothing to a session that is over and
whose engine rests.

**Proof sketch.** A chunk is not looked at, and what the machine prints is not relayed because the
engine has detached itself. -/
lemma happen_of_over (hs : Serving s) (hrests : Engine.Rests s.engine) (ho : s.outcome ≠ none)
    (hx : x.IsOrderly) (hn : x ≠ .inputEnded) : s.happen x = (s, []) := by
  cases x with
  | received chunk =>
    obtain ⟨c, hchunk⟩ := Option.isSome_iff_exists.1 hx
    exact (serves_received hs hchunk).2 ho
  | printed p =>
    have hrelayed : s.engine.printed p = (s.engine, []) := by
      simp [Engine.printed, Engine.relayed, Relay.events, hrests.detached]
    have hrespond : s.respond (.printed p) = (s, []) := by
      rw [respond, hrelayed]
      rfl
    simp only [happen, hrespond, hs.settle_eq, List.append_nil]
  | inputEnded => exact absurd rfl hn
  | inputFailed message => exact hx.elim
  | outputFailed message => exact hx.elim

/-- A session that takes up a command relays it.

**Proof sketch.** Taking up the command follows from handling it, so what is written are the frames
of its events, and the outcome is that of the engine's state. -/
lemma relayed_received (hs : Serving s) (hc : Coherent true s) (ho : s.outcome = none)
    {chunk : Bytes} {c : Command} (hchunk : Command.format.ofChunk? chunk = some c) :
    Relayed s [.received chunk] (s.happen (.received chunk)) := by
  have hserves := (serves_received hs hchunk).1 ho
  have hopen := hs.isOpen ho
  have hhappen := happen_received_of_ofChunk? hopen (hs.reader ho) hchunk
  have hevents : events (s.happen (.received chunk)).2 = Emission.events (s.engine.handle c).2 := by
    rw [hhappen, events_takeItem]
  exact {
    serving := hserves.serving
    coherent := coherent_happen hc _
    linked := by
      rw [hhappen, (takeItem_follows hopen c).outcome]
      exact Outcome.ofState?_ne_disconnected _
    engine := by rw [hserves.engine, hserves.commands]
    yields := by
      rw [hserves.commands, hserves.engine, hevents]
      exact s.engine.yields_handle c
    written := by
      have hw := (takeItem_follows hopen c).writes
      rw [Engine.drive_singleton] at hw
      rw [hevents, hhappen]
      exact (map_ofChunk?_of_map_encode hw).2
    heeded := fun _ => by
      rw [hserves.commands, Engine.heeded, Engine.heeded, ite_self]
    isOver := fun hn => absurd ho hn }

/-- A session that is not over relays what the machine prints by itself.

**Proof sketch.** What is printed is relayed as events that can be written, and it leaves the
session as it is. -/
lemma relayed_printed (hs : Serving s) (hc : Coherent true s) (ho : s.outcome = none)
    (p : Printed) :
    Relayed s [.printed p] (s.happen (.printed p)) := by
  have hserves := serves_printed hs p
  obtain ⟨hpass, hw⟩ :=
    passOn_of_fresh (hs.isOpen ho).output (Engine.allEncode_relayed s.engine [p])
  have hrespond : s.respond (.printed p) = s.passOn (s.engine.printed p).2 := rfl
  have hhappen : s.happen (.printed p) = (s, (s.passOn (s.engine.printed p).2).2) := by
    have hsame : (s.passOn (s.engine.printed p).2).1 = s := hpass
    simp only [happen, hrespond, hsame, hs.settle_eq, List.append_nil]
  have hevents : events (s.happen (.printed p)).2 = Emission.events (s.engine.printed p).2 := by
    rw [hhappen, events_passOn]
  exact {
    serving := hserves.serving
    coherent := coherent_happen hc _
    linked := by
      rw [hhappen, ho]
      exact (Option.some_ne_none _).symm
    engine := by rw [hserves.engine, hserves.commands]
    yields := by
      rw [hserves.commands, hserves.engine, hevents]
      exact s.engine.yields_printed p
    written := by
      rw [hevents, hhappen]
      exact (map_ofChunk?_of_map_encode hw).2
    heeded := fun _ => by
      rw [hserves.commands]
      rfl
    isOver := fun hn => absurd ho hn }

/-- **An orderly happening** that does not end the input: a session that has not lost a stream
relays it.

**Proof sketch.** A session that runs relays what comes in, by one of the two lemmas above. One that
is over does nothing, and its engine rests. -/
theorem relayed_happen (hs : Serving s) (hc : Coherent true s) (hl : s.outcome ≠ some .disconnected)
    (hx : x.IsOrderly) (hn : x ≠ .inputEnded) : Relayed s [x] (s.happen x) := by
  by_cases ho : s.outcome = none
  · cases x with
    | received chunk =>
      obtain ⟨c, hchunk⟩ := Option.isSome_iff_exists.1 hx
      exact relayed_received hs hc ho hchunk
    | printed p => exact relayed_printed hs hc ho p
    | inputEnded => exact absurd rfl hn
    | inputFailed message => exact hx.elim
    | outputFailed message => exact hx.elim
  · have hrests := hc.agrees.rests hl ho
    rw [happen_of_over hs hrests ho hx hn]
    exact {
      relayed_nil hs hc hl with
      yields := hrests.yields _ }

/-- **Orderly happenings** that do not end the input: a session that has not lost a stream relays
them. -/
theorem relayed_run (hs : Serving s) (hc : Coherent true s) (hl : s.outcome ≠ some .disconnected)
    (hxs : ∀ x ∈ xs, x.IsOrderly ∧ x ≠ .inputEnded) : Relayed s xs (s.run xs) := by
  induction xs generalizing s with
  | nil => exact relayed_nil hs hc hl
  | cons x xs ih =>
    obtain ⟨hx, hn⟩ := hxs x List.mem_cons_self
    have hfirst := relayed_happen hs hc hl hx hn
    exact hfirst.append (ih hfirst.serving hfirst.coherent hfirst.linked fun y hy =>
      hxs y (List.mem_cons_of_mem x hy))

end Session

end DebugWire
