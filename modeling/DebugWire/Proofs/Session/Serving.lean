import DebugWire.Proofs.Engine.Queries
import DebugWire.Proofs.Session.Refinement
import DebugWire.Proofs.Wire.EventStream

set_option relaxedAutoImplicit false
set_option autoImplicit false

/-!
# Sessions that serve a client

A session whose input comes in as chunks of one command each handles each command as it comes in,
writes one chunk for each event, and is ready for the next command, until it is over. From then on
it handles none.

## Main definitions

* `DebugWire.SessionTrace.commands` — the commands that a trace tells of.
* `DebugWire.Session.Serving` — a session between two chunks.
* `DebugWire.Session.Serves` — what a session does when something happens to it.

## Main results

* `DebugWire.Session.serves_received` — a chunk of one command.
* `DebugWire.Session.serves_inputEnded`, `DebugWire.Session.serves_printed` — the other happenings.
* `DebugWire.Session.serves_run` — one happening after the other.
-/

namespace DebugWire

/-! ## Traces -/

namespace SessionTrace

/-- The command that was decoded. -/
def command? : SessionTrace → Option Command
  | command c => some c
  | _ => none

/-- The commands that a trace tells of, in order. -/
def commands (trace : List SessionTrace) : List Command := trace.filterMap command?

/-- The commands of traces one behind the other are those of the first and then those of the second.
-/
@[simp]
lemma commands_append (t t' : List SessionTrace) : commands (t ++ t') = commands t ++ commands t' :=
  List.filterMap_append

/-- A command in front of a trace is the first of its commands. -/
@[simp]
lemma commands_command_cons (c : Command) (t : List SessionTrace) :
    commands (command c :: t) = c :: commands t := rfl

end SessionTrace

namespace Session

open SessionTrace (commands writes)

variable {s : Session}

/-- Passing on what the engine has let out decodes no command.

**Proof sketch.** Induction on what is let out: neither a log nor a write is a command. -/
lemma commands_passOn (s : Session) (trace : List Emission) : commands (s.passOn trace).2 = [] := by
  induction trace generalizing s with
  | nil => rfl
  | cons x trace ih =>
    cases x with
    | log entry => exact ih s
    | event e =>
      have hw : commands (s.writeEvent e).2 = [] := by
        unfold writeEvent
        cases e.encode with
        | error f => rfl
        | ok bytes => cases s.output.write.2 <;> simp [commands, SessionTrace.command?]
      rw [passOn, SessionTrace.commands_append, hw, ih]
      rfl

/-- Closing decodes no command, with whatever outcome. -/
lemma commands_close (s : Session) (outcome : Outcome) : commands (s.close outcome).2 = [] := by
  unfold close
  split_ifs <;> rfl

/-- Taking up a command tells of that command and of no other. -/
lemma commands_takeItem (s : Session) (c : Command) : commands (s.takeItem (.value c)).2 = [c] := by
  simp only [takeItem, took, closeIfOver]
  split <;>
    rw [List.cons_append, SessionTrace.commands_command_cons, SessionTrace.commands_append,
      commands_passOn]
  · rw [commands_close]
    rfl
  · rfl

/-- Closing writes nothing, it only may end the output. -/
lemma writes_close (s : Session) (outcome : Outcome) : writes (s.close outcome).2 = [] := by
  unfold close
  split_ifs <;> rfl

/-! ## Between two chunks -/

/-- A session *is serving*: while it is not over, it takes commands, its output takes every write,
and no bytes wait. Its output never fails. -/
structure Serving (s : Session) : Prop where
  /-- While it is not over, it takes commands. -/
  isOpen : s.outcome = none → Open s
  /-- While it is not over, no bytes wait. -/
  reader : s.outcome = none → s.reader = .empty
  /-- Its output takes every write, or it has ended. -/
  output : s.output = .fresh none ∨ s.output = ⟨.ended, none⟩

/-- The output of a session that is serving has no failed write. -/
lemma Serving.settle_eq (h : Serving s) : s.settle = (s, []) := by
  unfold settle
  rcases h.output with ho | ho <;> rw [ho] <;> rfl

/-- Closing ends an output that takes every write, or leaves it as it is. -/
lemma output_close (h : s.output = .fresh none ∨ s.output = ⟨.ended, none⟩) (outcome : Outcome) :
    (s.close outcome).1.output = .fresh none ∨ (s.close outcome).1.output = ⟨.ended, none⟩ := by
  obtain ⟨engine, reader, outcome', output, endsOutput⟩ := s
  cases outcome' with
  | some _ => exact h
  | none =>
    cases endsOutput with
    | false => exact h
    | true => exact .inr (by rcases h with rfl | rfl <;> rfl)

/-- Closing leaves a session serving, and it is over. -/
lemma Serving.close (h : Serving s) (outcome : Outcome) :
    Serving (s.close outcome).1 ∧ (s.close outcome).1.outcome ≠ none := by
  have ho : (s.close outcome).1.outcome ≠ none := by
    unfold Session.close
    split_ifs with ho
    · exact Option.isSome_iff_ne_none.1 ho
    all_goals exact nofun
  exact ⟨⟨fun hn => absurd hn ho, fun hn => absurd hn ho, output_close h.output outcome⟩, ho⟩

/-- What a session has done when it was given commands: it handled them, wrote a chunk for each
event, among them the answers, and is serving again. -/
structure Serves (s : Session) (cs : List Command) (result : Session × List SessionTrace) :
    Prop where
  /-- It is serving. -/
  serving : Serving result.1
  /-- It was not over before if it is not now. -/
  outcome : result.1.outcome = none → s.outcome = none
  /-- It has handled the commands. -/
  commands : SessionTrace.commands result.2 = cs
  /-- It has written one event in each chunk. -/
  writes : ∀ chunk ∈ SessionTrace.writes result.2, (Event.format.ofChunk? chunk).isSome = true
  /-- Of those the answers to queries are the ones to the commands. -/
  answers :
    ((SessionTrace.writes result.2).filterMap Event.format.ofChunk?).filter (·.query?.isSome) =
    s.engine.answers cs
  /-- Its engine is the one after the commands. -/
  engine : result.1.engine = s.engine.after cs

/-- Nothing done serves no command, so a serving session stays one. -/
lemma Serving.serves_nil (h : Serving s) : Serves s [] (s, []) :=
  ⟨h, id, rfl, fun _ hc => absurd hc List.not_mem_nil, rfl, rfl⟩

/-- Chunks that are the frames of events hold these events.

**Proof sketch.** Induction on the chunks: the frame of an event holds that event, as what it
carries is the event itself. -/
lemma map_ofChunk?_of_map_encode {chunks : List Bytes} {es : List Event}
    (h : (chunks.map .ok : List (Except Fault Bytes)) = es.map Event.encode) :
    (∀ chunk ∈ chunks, (Event.format.ofChunk? chunk).isSome = true) ∧
      chunks.filterMap Event.format.ofChunk? = es := by
  induction chunks generalizing es with
  | nil =>
    obtain rfl := List.map_eq_nil_iff.1 h.symm
    exact ⟨fun _ hc => absurd hc List.not_mem_nil, rfl⟩
  | cons chunk chunks ih =>
    cases es with
    | nil => cases h
    | cons e es =>
      obtain ⟨he, hes⟩ := List.cons.inj h
      obtain ⟨hall, hmap⟩ := ih hes
      have hc := Event.codec.ofChunk?_encode he.symm
      rw [Event.codec_carried] at hc
      refine ⟨?_, by rw [List.filterMap_cons_some hc, hmap]⟩
      simp only [List.mem_cons, forall_eq_or_imp, hc, Option.isSome_some, true_and]
      exact hall

/-! ## Happenings -/

/-- A reader without bytes gives nothing, so there is nothing to be taken up. -/
lemma pump_of_reader_empty (h : s.reader = .empty) : s.pump = (s, []) := by
  rw [pump]
  split_ifs
  · rfl
  · split
    case h_1 => rfl
    case h_2 hn =>
      rw [h, Reader.next?] at hn
      cases hn

/-- A chunk of one command is taken up as that command.

**Proof sketch.** The reader is empty, so the chunk gives the one item and leaves nothing. Taking it
up leaves no item to pump, whether the session is over then or not. -/
lemma happen_received_of_ofChunk? (h : Open s) (hr : s.reader = .empty) {chunk : Bytes}
    {c : Command} (hc : Command.format.ofChunk? chunk = some c) :
    s.happen (.received chunk) = s.takeItem (.value c) := by
  have hd : (s.reader.push chunk).drain Command.format = ([.value c], .empty) := by
    rw [hr]
    exact Format.drain_of_ofChunk? hc
  obtain ⟨r, hn, hlast⟩ := Reader.next?_of_drain_eq_cons hd
  obtain ⟨-, rfl⟩ := Reader.next?_of_drain_eq_nil hlast
  have ht := takeItem_follows h c
  have hrest : (s.takeItem (.value c)).1.pump = ((s.takeItem (.value c)).1, []) := by
    by_cases ho : (s.takeItem (.value c)).1.outcome = none
    · exact pump_of_reader_empty ((ht.reader ho).trans hr)
    · exact pump_of_outcome ho
  have hs : ({ s with reader := .empty } : Session) = s := by rw [← hr]
  have hp : pump { s with reader := s.reader.push chunk } = s.takeItem (.value c) := by
    rw [pump, if_neg (by rw [h.outcome]; exact Bool.false_ne_true)]
    split
    case h_1 hn' =>
      rw [hn] at hn'
      cases hn'
    case h_2 hn' =>
      rw [hn] at hn'
      obtain ⟨rfl, rfl⟩ := Prod.mk.inj (Option.some.inj hn')
      dsimp only
      rw [hs, hrest, List.append_nil]
  have hrespond : s.respond (.received chunk) = s.takeItem (.value c) := by
    rw [respond, receive, if_neg (by rw [h.outcome]; exact Bool.false_ne_true), hp]
  simp only [happen, hrespond, ht.settled, List.append_nil]

/-- **A chunk of one command** that comes in is handled, unless the session is over.

**Proof sketch.** A session that runs takes up the command, and each fact about that follows from
handling it. One that is over does not look at the chunk. -/
theorem serves_received (h : Serving s) {chunk : Bytes} {c : Command}
    (hc : Command.format.ofChunk? chunk = some c) :
    (s.outcome = none → Serves s [c] (s.happen (.received chunk))) ∧
      (s.outcome ≠ none → s.happen (.received chunk) = (s, [])) := by
  constructor
  · intro ho
    have hopen := h.isOpen ho
    have hf := takeItem_follows hopen c
    have hw := hf.writes
    rw [Engine.drive_singleton] at hw
    obtain ⟨hall, hmap⟩ := map_ofChunk?_of_map_encode hw
    have hpass := (passOn_of_fresh (s := { s with engine := (s.engine.handle c).1 }) hopen.output
      (Engine.allEncode_handle s.engine c)).1
    rw [happen_received_of_ofChunk? hopen (h.reader ho) hc]
    exact {
      serving := {
        isOpen := hf.isOpen
        reader := fun ho' => (hf.reader ho').trans (h.reader ho)
        output := by
          simp only [takeItem, took, hpass, closeIfOver]
          split
          · exact output_close (s :=
              { s with engine := (s.engine.handle c).1 }) (.inl hopen.output) _
          · exact .inl hopen.output }
      outcome := fun _ => ho
      commands := commands_takeItem s c
      writes := hall
      answers := by
        rw [hmap, Engine.answers_singleton, ← Engine.answers_handle]
        rfl
      engine := by
        rw [hf.engine, Engine.drive_singleton]
        rfl }
  · intro ho
    have hrespond : s.respond (.received chunk) = (s, []) := if_pos (Option.isSome_iff_ne_none.2 ho)
    simp only [happen, hrespond, h.settle_eq, List.append_nil]

/-- The end of the input serves no command.

**Proof sketch.** A session that is over does nothing. Otherwise it warns if bytes are left and is
closed as disconnected, which neither decodes a command nor writes. -/
theorem serves_inputEnded (h : Serving s) : Serves s [] (s.happen .inputEnded) := by
  by_cases ho : s.outcome.isSome = true
  · have hrespond : s.respond .inputEnded = (s, []) := if_pos ho
    simp only [happen, hrespond, h.settle_eq, List.append_nil]
    exact h.serves_nil
  · obtain ⟨hclose, hover⟩ := h.close .disconnected
    have hengine : (s.close .disconnected).1.engine = s.engine := by
      unfold Session.close
      split_ifs <;> rfl
    have hrespond : ∃ warning, s.respond .inputEnded =
        ((s.close .disconnected).1, warning ++ (s.close .disconnected).2) ∧
          commands warning = [] ∧ writes warning = [] := by
      refine ⟨_, if_neg ho, ?_, ?_⟩ <;> split_ifs <;> rfl
    obtain ⟨warning, hrespond, hwc, hww⟩ := hrespond
    simp only [happen, hrespond, hclose.settle_eq, List.append_nil]
    exact {
      serving := hclose
      outcome := fun hn => absurd hn hover
      commands := by rw [SessionTrace.commands_append, hwc, commands_close]; rfl
      writes := by
        rw [SessionTrace.writes_append, hww, writes_close]
        exact fun _ hc => absurd hc List.not_mem_nil
      answers := by rw [SessionTrace.writes_append, hww, writes_close]; rfl
      engine := hengine }

/-- An output that has ended takes no write.

**Proof sketch.** Induction on what is let out: an event is not written, and a log is none. -/
lemma passOn_of_ended (h : s.output = ⟨.ended, none⟩) (trace : List Emission) :
    (s.passOn trace).1 = s ∧ writes (s.passOn trace).2 = [] := by
  induction trace with
  | nil => exact ⟨rfl, rfl⟩
  | cons x trace ih =>
    cases x with
    | log entry => exact ih
    | event e =>
      have hw : (s.writeEvent e).1 = s ∧ writes (s.writeEvent e).2 = [] := by
        obtain ⟨engine, reader, outcome, output, endsOutput⟩ := s
        obtain rfl : output = ⟨.ended, none⟩ := h
        unfold writeEvent
        cases e.encode <;> exact ⟨rfl, rfl⟩
      obtain ⟨hs, hn⟩ := hw
      simp only [passOn, hs, SessionTrace.writes_append, hn, List.nil_append]
      exact ih

/-- A text that the machine prints by itself serves no command.

**Proof sketch.** The output is either new or has ended. A new one takes the frames of what is
relayed, and that answers no query; one that has ended takes nothing. -/
theorem serves_printed (h : Serving s) (p : Printed) : Serves s [] (s.happen (.printed p)) := by
  have hpass : (s.passOn (s.engine.printed p).2).1 = s ∧
      (∀ chunk ∈ writes (s.passOn (s.engine.printed p).2).2,
        (Event.format.ofChunk? chunk).isSome = true) ∧
      ((writes (s.passOn (s.engine.printed p).2).2).filterMap Event.format.ofChunk?).filter
        (·.query?.isSome) = [] := by
    rcases h.output with ho | ho
    · obtain ⟨hs, hw⟩ := passOn_of_fresh ho (Engine.allEncode_relayed s.engine [p])
      obtain ⟨hall, hmap⟩ := map_ofChunk?_of_map_encode hw
      refine ⟨hs, hall, ?_⟩
      have ha := Engine.answers_relayed s.engine [p]
      rw [Emission.answers] at ha
      rw [Engine.printed, hmap, ha]
    · obtain ⟨hs, hw⟩ := passOn_of_ended ho (s.engine.printed p).2
      rw [hs, hw]
      exact ⟨rfl, fun _ hc => absurd hc List.not_mem_nil, rfl⟩
  obtain ⟨hs, hall, ha⟩ := hpass
  have hrespond : s.respond (.printed p) = s.passOn (s.engine.printed p).2 := rfl
  simp only [happen, hrespond, hs, h.settle_eq, List.append_nil]
  exact {
    serving := h
    outcome := id
    commands := commands_passOn s _
    writes := hall
    answers := ha
    engine := rfl }

/-! ## Runs -/

/-- The command that a happening brings. -/
def Happening.command? : Happening → Option Command
  | received chunk => Command.format.ofChunk? chunk
  | _ => none

/-- The commands that happenings bring, in order. -/
def Happening.commands (xs : List Happening) : List Command := xs.filterMap command?

/-- A happening is *orderly*: a chunk that comes in holds one command, and no stream fails. -/
def Happening.IsOrderly : Happening → Prop
  | received chunk => (Command.format.ofChunk? chunk).isSome = true
  | inputEnded | printed _ => True
  | inputFailed _ | outputFailed _ => False

/-- Serving commands and then others serves all of them, in this order.

**Proof sketch.** Each part is put together from the two: commands, writes and answers are those of
both traces, and the engine is that of the second, after its commands. -/
lemma Serves.append {cs cs' : List Command} {r r' : Session × List SessionTrace} (h : Serves s cs r)
    (h' : Serves r.1 cs' r') : Serves s (cs ++ cs') (r'.1, r.2 ++ r'.2) where
  serving := h'.serving
  outcome ho := h.outcome (h'.outcome ho)
  commands := by rw [SessionTrace.commands_append, h.commands, h'.commands]
  writes chunk hc := by
    rw [SessionTrace.writes_append] at hc
    exact (List.mem_append.1 hc).elim (h.writes chunk) (h'.writes chunk)
  answers := by
    rw [SessionTrace.writes_append, List.filterMap_append, List.filter_append, h.answers,
      h'.answers, h.engine, Engine.answers_append]
  engine := by rw [h'.engine, h.engine, Engine.after_append]

/-- An orderly happening: a session that is not over serves the command that it brings, and one that
is over serves none.

**Proof sketch.** One case for each orderly happening. Only a chunk brings a command. -/
lemma serves_happen (h : Serving s) {x : Happening} (hx : x.IsOrderly) :
    ∃ cs, Serves s cs (s.happen x) ∧ (s.outcome = none → cs = x.command?.toList) ∧
      (s.outcome ≠ none → cs = []) := by
  cases x with
  | received chunk =>
    obtain ⟨c, hc⟩ := Option.isSome_iff_exists.1 hx
    by_cases ho : s.outcome = none
    · refine ⟨[c], (serves_received h hc).1 ho, fun _ => ?_, fun hn => absurd ho hn⟩
      rw [Happening.command?, hc]
      rfl
    · refine ⟨[], ?_, fun hn => absurd hn ho, fun _ => rfl⟩
      rw [(serves_received h hc).2 ho]
      exact h.serves_nil
  | inputEnded => exact ⟨[], serves_inputEnded h, fun _ => rfl, fun _ => rfl⟩
  | printed p => exact ⟨[], serves_printed h p, fun _ => rfl, fun _ => rfl⟩
  | inputFailed message => exact hx.elim
  | outputFailed message => exact hx.elim

/-- **Orderly happenings**: a session serves the first of the commands that they bring, and all of
them if it is not over afterwards. When it is over it serves none.

**Proof sketch.** Induction on the happenings. A session does not run again once it is over, so it
serves commands up to that moment and none behind it. -/
theorem serves_run (h : Serving s) {xs : List Happening} (hxs : ∀ x ∈ xs, x.IsOrderly) :
    ∃ cs, Serves s cs (s.run xs) ∧ cs <+: Happening.commands xs ∧
      ((s.run xs).1.outcome = none → cs = Happening.commands xs) ∧
      (s.outcome ≠ none → cs = []) := by
  induction xs generalizing s with
  | nil => exact ⟨[], h.serves_nil, List.nil_prefix, fun _ => rfl, fun _ => rfl⟩
  | cons x xs ih =>
    obtain ⟨cs, hs, hopen, hover⟩ := serves_happen h (hxs x List.mem_cons_self)
    obtain ⟨cs', hs', hprefix, hall, hnone⟩ := ih hs.serving fun y hy =>
      hxs y (List.mem_cons_of_mem x hy)
    have hcommands : Happening.commands (x :: xs) = x.command?.toList ++ Happening.commands xs := by
      rw [Happening.commands, List.filterMap_cons]
      cases x.command? <;> rfl
    refine ⟨cs ++ cs', hs.append hs', ?_, fun ho => ?_, fun ho => ?_⟩
    · by_cases ho : s.outcome = none
      · rw [hopen ho, hcommands, List.prefix_append_right_inj]
        exact hprefix
      · rw [hover ho, hnone fun hn => ho (hs.outcome hn)]
        exact List.nil_prefix
    · rw [hopen (hs.outcome (hs'.outcome ho)), hall ho, hcommands]
    · rw [hover ho, hnone fun hn => ho (hs.outcome hn)]
      rfl

end Session

end DebugWire
