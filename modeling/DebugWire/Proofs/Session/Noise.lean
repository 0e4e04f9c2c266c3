import DebugWire.Proofs.Session.Outcome
import DebugWire.Proofs.Session.Relaying
import DebugWire.Proofs.Wire.Noise

set_option relaxedAutoImplicit false
set_option autoImplicit false

/-!
# Sessions that are fed noise

A session tells its client of each run of noise between the commands, and goes on as if there had
been none: the noise reaches neither the engine nor the outcome. What stands behind the command that
ends the engine is not taken up any more, be it noise or commands.

## Main definitions

* `DebugWire.Engine.takes` — what an engine does with items, and the events of each.
* `DebugWire.Session.Takes` — what a session has done is what its engine does with items.

## Main results

* `DebugWire.Engine.takes_filter` — what an engine does without the errors.
* `DebugWire.Session.pump_takes` — the items that wait in the reader.
* `DebugWire.Session.littered_start` — a littered script in one chunk.
-/

namespace DebugWire

/-! ## Engines -/

namespace Engine

/-- What an engine does with items one by one, up to and including the command that brings it to its
end: each item that it takes up, with the events that it lets out for it. -/
def takes (e : Engine) : List (Item Command) → Engine × List (Item Command × List Event)
  | [] => (e, [])
  | .malformed cause :: items =>
    let (e', taken) := e.takes items
    (e', (.malformed cause, Emission.events (e.report cause.message).2) :: taken)
  | .value c :: items =>
    let (e₁, trace) := e.handle c
    if e₁.terminated then (e₁, [(.value c, Emission.events trace)])
    else
      let (e₂, taken) := e₁.takes items
      (e₂, (.value c, Emission.events trace) :: taken)

variable {e : Engine} {c : Command}

/-- An error is told of with its message, and the engine goes on. -/
lemma takes_malformed (e : Engine) (cause : Malformed) (items : List (Item Command)) :
    e.takes (.malformed cause :: items) =
      ((e.takes items).1, (.malformed cause, [.errorOutput cause.message]) :: (e.takes items).2) :=
  rfl

/-- A command that brings the engine to its end is the last item that it takes up. -/
lemma takes_value_of_terminated (h : (e.handle c).1.terminated = true)
    (items : List (Item Command)) :
    e.takes (.value c :: items) =
      ((e.handle c).1, [(.value c, Emission.events (e.handle c).2)]) := by
  simp only [takes, h, if_true]

/-- Behind any other command the engine goes on, and takes up the rest of the items. -/
lemma takes_value_of_live (h : (e.handle c).1.terminated = false) (items : List (Item Command)) :
    e.takes (.value c :: items) = (((e.handle c).1.takes items).1,
      (.value c, Emission.events (e.handle c).2) :: ((e.handle c).1.takes items).2) := by
  simp only [takes, h, Bool.false_eq_true, if_false]

/-- **Without the errors**, an engine comes to the same end, and takes up the same commands with the
same events.

**Proof sketch.** Induction on the items. An error does not touch the engine, so it can be left out;
a command is taken up by the same engine on both sides, and if it ends the engine then neither side
goes on. -/
theorem takes_filter (e : Engine) (items : List (Item Command)) :
    e.takes (items.filter Item.isValue) =
      ((e.takes items).1, (e.takes items).2.filter fun taken => taken.1.isValue) := by
  induction items generalizing e with
  | nil => rfl
  | cons item items ih =>
    cases item with
    | malformed cause =>
      rw [List.filter_cons_of_neg Bool.false_ne_true, takes_malformed]
      dsimp only
      rw [List.filter_cons_of_neg Bool.false_ne_true]
      exact ih e
    | value c =>
      rw [List.filter_cons_of_pos rfl]
      cases h : (e.handle c).1.terminated with
      | true =>
        rw [takes_value_of_terminated h, takes_value_of_terminated h]
        rfl
      | false =>
        rw [takes_value_of_live h, takes_value_of_live h, ih]
        exact Prod.ext rfl (List.filter_cons_of_pos rfl).symm

/-- An engine tells of an error that it takes up with its message, and of nothing else.

**Proof sketch.** Induction on the items: an error is told of when it is taken up, and what is told
of a command is about that command. -/
lemma events_of_mem_takes {items : List (Item Command)} {cause : Malformed} {evs : List Event}
    (h : (.malformed cause, evs) ∈ (e.takes items).2) : evs = [.errorOutput cause.message] := by
  induction items generalizing e with
  | nil => cases h
  | cons item items ih =>
    cases item with
    | malformed cause' =>
      rcases List.mem_cons.1 h with h | h
      · cases h
        rfl
      · exact ih h
    | value c =>
      cases hc : (e.handle c).1.terminated with
      | true =>
        rw [takes_value_of_terminated hc] at h
        cases List.mem_singleton.1 h
      | false =>
        rw [takes_value_of_live hc] at h
        rcases List.mem_cons.1 h with h | h
        · cases h
        · exact ih h

/-- The items that an engine takes up are the first ones. If there are others behind them, it has
come to its end.

**Proof sketch.** Induction on the items. The engine stops taking up items only behind a command
that has ended it. -/
lemma exists_append_takes (he : e.terminated = false) (items : List (Item Command)) :
    ∃ behind, items = (e.takes items).2.map Prod.fst ++ behind ∧
      (behind ≠ [] → (e.takes items).1.terminated = true) := by
  induction items generalizing e with
  | nil => exact ⟨[], rfl, fun hn => absurd rfl hn⟩
  | cons item items ih =>
    cases item with
    | malformed cause =>
      obtain ⟨behind, hitems, hover⟩ := ih he
      exact ⟨behind, congrArg (.malformed cause :: ·) hitems, hover⟩
    | value c =>
      cases hc : (e.handle c).1.terminated with
      | true =>
        rw [takes_value_of_terminated hc]
        exact ⟨items, rfl, fun _ => hc⟩
      | false =>
        obtain ⟨behind, hitems, hover⟩ := ih hc
        rw [takes_value_of_live hc]
        exact ⟨behind, congrArg (.value c :: ·) hitems, hover⟩

end Engine

/-! ## Sessions -/

namespace Session

open SessionTrace (events)

variable {s : Session}

/-- What has come of a session is what its engine *takes* up of items: the engine is where that
brings it, the outcome is that of its state, and the events are those of the items taken up. -/
structure Takes (e : Engine) (items : List (Item Command)) (result : Session × List SessionTrace) :
    Prop where
  engine : result.1.engine = (e.takes items).1
  outcome : result.1.outcome = Outcome.ofState? result.1.engine.state
  events : SessionTrace.events result.2 = (e.takes items).2.flatMap Prod.snd

/-- A command that is taken up: the session is over afterwards if the engine is, and keeps its bytes
otherwise.

**Proof sketch.** The engine handles the command, and the session closes if the engine is at its
end. It was running before, so closing it gives it its outcome. -/
lemma takeItem_value (ho : s.outcome = none) (c : Command) :
    (s.takeItem (.value c)).1.engine = (s.engine.handle c).1 ∧
      (s.takeItem (.value c)).1.outcome = Outcome.ofState? (s.engine.handle c).1.state ∧
      ((s.engine.handle c).1.terminated = false → (s.takeItem (.value c)).1.reader = s.reader) := by
  obtain ⟨output, -, hr⟩ := takeItem_value_frame s c
  rw [hr, closeIfOver]
  dsimp only
  split
  case h_1 outcome hof =>
    rw [close_of_running (s := { s with engine := (s.engine.handle c).1, output := output }) ho]
    refine ⟨rfl, hof.symm, fun hlive => ?_⟩
    rw [Engine.ofState?_eq_none hlive] at hof
    cases hof
  case h_2 hof => exact ⟨rfl, ho.trans hof.symm, fun _ => rfl⟩

/-- **The items that wait**: a session that is not over pumps its reader as its engine takes up the
items that the reader gives, whatever becomes of its writes.

**Proof sketch.** Induction on the items. An error leaves the session as it is, but for the output.
A command that ends the engine ends the session too, which pumps no further, and there the engine
stops as well. -/
theorem pump_takes (ho : s.outcome = none) (he : s.engine.terminated = false)
    {items : List (Item Command)}
    {last : Reader} (hd : s.reader.drain Command.format = (items, last)) :
    Takes s.engine items s.pump := by
  induction items generalizing s with
  | nil =>
    rw [pump_of_next?_eq_none (Reader.next?_of_drain_eq_nil hd).1]
    exact ⟨rfl, ho.trans (Engine.ofState?_eq_none he).symm, rfl⟩
  | cons item items ih =>
    obtain ⟨reader, hnext, hbehind⟩ := Reader.next?_of_drain_eq_cons hd
    rw [pump_of_next?_eq_some ho hnext]
    cases item with
    | malformed cause =>
      obtain ⟨output, -, hr⟩ := takeItem_malformed_frame { s with reader := reader } cause
      have hevents : events (takeItem { s with reader := reader } (.malformed cause)).2 =
          [.errorOutput cause.message] :=
        events_passOn { s with reader := reader } (s.engine.report cause.message).2
      rw [hr]
      have hrest := ih (s := { s with reader := reader, output := output }) ho he hbehind
      exact {
        engine := hrest.engine
        outcome := hrest.outcome
        events := by
          rw [SessionTrace.events_append, hevents, hrest.events, Engine.takes_malformed]
          rfl }
    | value c =>
      obtain ⟨hengine, houtcome, hreader⟩ := takeItem_value (s := { s with reader := reader }) ho c
      have hevents := events_takeItem { s with reader := reader } c
      cases hc : (s.engine.handle c).1.terminated with
      | true =>
        have hover : (takeItem { s with reader := reader } (.value c)).1.outcome ≠ none := by
          rw [houtcome, ← Option.isSome_iff_ne_none, Outcome.isSome_ofState?]
          exact hc
        rw [pump_of_outcome hover]
        exact {
          engine := by rw [hengine, Engine.takes_value_of_terminated hc]
          outcome := by rw [houtcome, hengine]
          events := by
            rw [List.append_nil, hevents, Engine.takes_value_of_terminated hc]
            exact (List.append_nil _).symm }
      | false =>
        have hopen : (takeItem { s with reader := reader } (.value c)).1.outcome = none :=
          houtcome.trans (Engine.ofState?_eq_none hc)
        have hrest := ih hopen (by rw [hengine]; exact hc) (by rw [hreader hc]; exact hbehind)
        rw [hengine] at hrest
        exact {
          engine := by rw [hrest.engine, Engine.takes_value_of_live hc]
          outcome := hrest.outcome
          events := by
            rw [SessionTrace.events_append, hevents, hrest.events, Engine.takes_value_of_live hc]
            rfl }

/-! ## Outputs that never fail -/

/-- An output is *faultless*: it has not failed, and no write to it will. -/
def Faultless (s : Session) : Prop := s.output.failure = none ∧ s.output.hasFailed = false

/-- A write leaves a faultless output as it is. -/
lemma Faultless.write_eq (h : Faultless s) : s.output.write.1 = s.output := by
  obtain ⟨engine, reader, outcome, ⟨state, failure⟩, endsOutput⟩ := s
  obtain ⟨hfailure, hstate⟩ := h
  obtain rfl : failure = none := hfailure
  cases state with
  | ready | ended => rfl
  | failing message | failed => cases hstate

/-- What is passed on leaves a session as it is, if its output is faultless.

**Proof sketch.** Induction on what is let out. A log is not written, an event without encoding is
dropped, and a write on a faultless output leaves it as it is. -/
lemma Faultless.passOn_eq (h : Faultless s) (trace : List Emission) : (s.passOn trace).1 = s := by
  induction trace with
  | nil => rfl
  | cons x trace ih =>
    cases x with
    | log entry => exact ih
    | event e =>
      have hw : (s.writeEvent e).1 = s := by
        unfold writeEvent
        cases e.encode with
        | error f => rfl
        | ok bytes => exact congrArg (fun output => { s with output := output }) h.write_eq
      simp only [passOn, hw]
      exact ih

/-- A session whose output is faultless has no failed write to report. -/
lemma Faultless.settle_eq (h : Faultless s) : s.settle = (s, []) := by
  obtain ⟨engine, reader, outcome, ⟨state, failure⟩, endsOutput⟩ := s
  cases state with
  | ready | ended | failed => rfl
  | failing message => cases h.2

/-- A faultless output stays so when the session ends. -/
lemma Faultless.closeIfOver (h : Faultless s) : Faultless s.closeIfOver.1 := by
  obtain ⟨engine, reader, outcome, ⟨state, failure⟩, endsOutput⟩ := s
  unfold Session.closeIfOver
  split
  · unfold close
    cases endsOutput <;> cases state <;> split_ifs <;> exact ⟨h.1, by first | rfl | exact h.2⟩
  · exact h

/-- So it does when an item is taken up.

**Proof sketch.** By `passOn_eq` the output stays as it is; behind a command the session may be
closed, which keeps it faultless. -/
lemma Faultless.takeItem (h : Faultless s) (item : Item Command) :
    Faultless (s.takeItem item).1 := by
  cases item with
  | malformed cause =>
    have hr : (s.takeItem (.malformed cause)).1 = s := h.passOn_eq (s.engine.report cause.message).2
    rw [hr]
    exact h
  | value c =>
    have hs : Faultless { s with engine := (s.engine.handle c).1 } := h
    have hr : (s.takeItem (.value c)).1 =
        (Session.closeIfOver { s with engine := (s.engine.handle c).1 }).1 :=
      congrArg (fun s => (Session.closeIfOver s).1) (hs.passOn_eq (s.engine.handle c).2)
    rw [hr]
    exact hs.closeIfOver

/-- So it does when all items that wait are taken up. -/
lemma Faultless.pump (h : Faultless s) : Faultless s.pump.1 := by
  revert h
  refine pump_induction (motive := fun s result => Faultless s →
    Faultless result.1) (fun _ h => h) ?_ s
  intro s item reader _ _ ih h
  have hs : Faultless { s with reader := reader } := h
  exact ih (hs.takeItem item)

/-- A chunk that comes in is all that happens, if the output is faultless. -/
lemma Faultless.run_received (h : Faultless s) (chunk : Bytes) :
    s.run [.received chunk] = s.receive chunk := by
  have hreceive : Faultless (s.receive chunk).1 := by
    unfold Session.receive
    split_ifs
    · exact h
    · exact Faultless.pump (s := { s with reader := s.reader.push chunk }) h
  simp only [run, happen, respond, hreceive.settle_eq, List.append_nil]

/-! ## Sessions from their start -/

/-- **A littered script in one chunk**: what a reader gives of it, and what a session does with it
that is at its start. No string of the script goes on in the next command, which two strings can
only do that stand next to each other there.
* Draining gives the items of the pieces and leaves no bytes. Of these the values are the commands
  of the script, as their frames carry them.
* Each piece gives its item in its place, and takes its own bytes.
* The script has a stream without the noise, with which the session comes to the same engine and to
  the same outcome.
* The session lets out the events of the items that its engine takes up; without the noise it lets
  out those of the commands among them. An error gives one event, with its message.
* All items are taken up, unless a command has ended the session before.
* While the output fails at no write, that is all that happens.

**Proof sketch.** A frame ends where noise begins, since no frame goes on with a byte that opens
none, and a run of noise ends where the next frame begins. So the decoder finds the pieces one by
one. The session takes up their items as its engine does, by `pump_takes`, and errors do not touch
the engine, by `Engine.takes_filter`. The stream without the noise is littered as well, by the
pieces that are no noise. -/
theorem littered_start (machine : Machine) (logCommands endsOutput : Bool) (failure : Option String)
    {cs : Script} {pieces : List (Item Command × Bytes)} (h : cs.Littered pieces)
    (hc : cs.IsChain fun c d => Command.runsInto c d = false) {stream : Bytes}
    (hstream : pieces.flatMap Prod.snd = stream) {s : Session}
    (hs : start (.start machine logCommands) endsOutput failure = s)
    {taken : List (Item Command × List Event)}
    (ht : (s.engine.takes (pieces.map Prod.fst)).2 = taken) :
    (Reader.empty.push stream).drain Command.format = (pieces.map Prod.fst, .empty) ∧
    (pieces.map Prod.fst).filter Item.isValue = (cs.map Command.carried).map .value ∧
    (∀ before piece after, pieces = before ++ piece :: after →
      Reader.next? Command.format ⟨(piece :: after).flatMap Prod.snd⟩ =
        some (piece.1, ⟨after.flatMap Prod.snd⟩)) ∧
    (∃ clean, cs.encode = .ok clean ∧ (s.receive stream).1.engine = (s.receive clean).1.engine ∧
      (s.receive stream).1.outcome = (s.receive clean).1.outcome ∧
      events (s.receive stream).2 = taken.flatMap Prod.snd ∧
      events (s.receive clean).2 = (taken.filter fun item => item.1.isValue).flatMap Prod.snd) ∧
    (∀ cause evs, (.malformed cause, evs) ∈ taken → evs = [.errorOutput cause.message]) ∧
    (∃ behind, pieces.map Prod.fst = taken.map Prod.fst ++ behind ∧
      (behind ≠ [] → (s.receive stream).1.outcome ≠ none)) ∧
    (failure = none → ∀ chunk, s.run [.received chunk] = s.receive chunk) := by
  subst hstream hs ht
  have hdrain := h.drain_eq hc
  have hlive : Engine.terminated (.start machine logCommands) = false := rfl
  have hpump {bytes : Bytes} {items : List (Item Command)}
      (hd : Reader.drain Command.format ⟨bytes⟩ = (items, .empty)) :
      Takes (.start machine logCommands) items
        ((start (.start machine logCommands) endsOutput failure).receive bytes) :=
    pump_takes (s := { start (.start machine logCommands) endsOutput failure with
      reader := ⟨bytes⟩ }) rfl hlive hd
  have hnoisy := hpump hdrain
  have hclean := hpump (h.filter_pieces.drain_eq hc)
  have hitems : (pieces.filter fun piece => piece.1.isValue).map Prod.fst =
      (pieces.map Prod.fst).filter Item.isValue := by rw [List.filter_map]; rfl
  have hfilter := Engine.takes_filter (.start machine logCommands) (pieces.map Prod.fst)
  rw [← hitems] at hfilter
  have hengine := hnoisy.engine.trans (hclean.engine.trans (congrArg Prod.fst hfilter)).symm
  refine ⟨hdrain, h.filter_isValue, ?_, ⟨_, h.encode_eq, hengine, ?_, hnoisy.events, ?_⟩,
    ?_, ?_, ?_⟩
  · rintro before piece after rfl
    exact h.next?_append hc
  · rw [hnoisy.outcome, hclean.outcome, hengine]
  · rw [hclean.events, hfilter]
    rfl
  · exact fun cause evs hmem => Engine.events_of_mem_takes hmem
  · obtain ⟨behind, hbehind, hover⟩ := Engine.exists_append_takes hlive (pieces.map Prod.fst)
    refine ⟨behind, hbehind, fun hne => ?_⟩
    rw [hnoisy.outcome, ← Option.isSome_iff_ne_none, Outcome.isSome_ofState?, hnoisy.engine]
    exact hover hne
  · rintro rfl chunk
    exact Faultless.run_received (s := start (.start machine logCommands) endsOutput none)
      ⟨rfl, rfl⟩ chunk

/-- A string of one full frame, of bytes that each open a step, with noise on both sides of it;
further on a breakpoint is hit and the session is stopped. Behind that, neither the noise nor the
step is taken up. -/
theorem littered_start_of_full_string :
    ∃ text pieces stream s,
      text = String.ofList (List.replicate Chunk.maxSize 'e') ∧
      Script.Littered [.inputString text, .setBreakpoint 0, .step, .stop, .step] pieces ∧
      pieces.flatMap Prod.snd = stream ∧
      start (.start (.initial [(0, .nop)] 0 {}) false) true none = s ∧
      (Reader.empty.push stream).drain Command.format =
        ([.malformed (.unknownTag .command 0 2), .value (.inputString text),
          .malformed (.unknownTag .command 0xff 1),
          .value (.setBreakpoint 0), .value .step, .value .stop,
            .malformed (.unknownTag .command 1 1), .value .step],
          .empty) ∧
      s.run [.received stream] = s.receive stream ∧
      events (s.receive stream).2 =
        [.errorOutput (Malformed.unknownTag .command 0 2).message,
          .errorOutput (Fault.unexpectedInput .string none).message,
          .errorOutput (Malformed.unknownTag .command 0xff 1).message, .breakpointHit 0] := by
  obtain ⟨text, htext⟩ : ∃ text, text = String.ofList (List.replicate Chunk.maxSize 'e') := ⟨_, rfl⟩
  have hstring :
      (Command.inputString text).encode = .ok (Chunk.encode 0x74 (Utf8.encode text)) := by
    rw [Command.encode, Utf16.repaired_ofString]
    rfl
  have hlittered : Script.Littered [.inputString text, .setBreakpoint 0, .step, .stop, .step]
      [(.malformed (.unknownTag .command 0 2), [0, 0xff]),
        (.value (Command.inputString text).carried, Chunk.encode 0x74 (Utf8.encode text)),
        (.malformed (.unknownTag .command 0xff 1), [0xff]),
          (.value (.setBreakpoint 0), [0x62, 0, 0]),
        (.value .step, [0x65]), (.value .stop, [0x71]),
          (.malformed (.unknownTag .command 1 1), [1]),
        (.value .step, [0x65])] :=
    .noise 0 [0xff] (List.forall_mem_cons.2 ⟨rfl, List.forall_mem_singleton.2 rfl⟩)
      (by simp [Item.isValue]) <| .command hstring <|
      .noise 0xff [] (List.forall_mem_singleton.2 rfl) (by simp [Item.isValue]) <|
      .command rfl <| .command rfl <| .command rfl <|
      .noise 1 [] (List.forall_mem_singleton.2 rfl) (by simp [Item.isValue]) <| .command rfl .nil
  rw [Command.carried_inputString] at hlittered
  obtain ⟨hdrain, -, -, ⟨clean, -, -, -, hevents, -⟩, -, -, hrun⟩ :=
    littered_start (.initial [(0, .nop)] 0 {}) false true none hlittered
      (by simp [Command.runsInto]) rfl rfl rfl
  exact ⟨text, _, _, _, htext, hlittered, rfl, rfl, hdrain, hrun rfl _, hevents.trans rfl⟩

/-- **A string that is half of a surrogate pair**, behind a byte of noise, comes back as the
replacement character: the values that are drained are not the commands of the script. -/
theorem not_littered_start_of_lone_surrogate :
    ∃ cs pieces, cs = [.inputString ⟨[0xd800]⟩] ∧ Script.Littered cs pieces ∧
      cs.IsChain (fun c d => Command.runsInto c d = false) ∧
      (Reader.empty.push (pieces.flatMap Prod.snd)).drain Command.format =
        ([.malformed (.unknownTag .command 0 1), .value (.inputString "\ufffd")], .empty) ∧
      ((Reader.empty.push (pieces.flatMap Prod.snd)).drain Command.format).1.filter Item.isValue ≠
        cs.map .value := by
  have hlittered : Script.Littered [.inputString ⟨[0xd800]⟩]
      [(.malformed (.unknownTag .command 0 1), [0]), (.value (.inputString "\ufffd"), _)] :=
    .noise 0 [] (List.forall_mem_singleton.2 rfl) (by simp [Item.isValue]) <| .command rfl .nil
  have hc : [Command.inputString ⟨[0xd800]⟩].IsChain (fun c d => Command.runsInto c d = false) :=
    List.isChain_singleton _
  have hdrain := hlittered.drain_eq hc
  refine ⟨_, _, rfl, hlittered, hc, hdrain, fun hvalues => ?_⟩
  have htexts : [Item.value (Command.inputString "\ufffd")] = [.value (.inputString ⟨[0xd800]⟩)] :=
    (congrArg (fun result : List (Item Command) × Reader => result.1.filter Item.isValue)
      hdrain).symm.trans hvalues
  revert htexts
  decide
end Session

end DebugWire
