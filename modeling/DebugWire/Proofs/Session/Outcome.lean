import DebugWire.Proofs.Engine.Termination
import DebugWire.Proofs.Session.Serving

set_option relaxedAutoImplicit false
set_option autoImplicit false

/-!
# The outcome of a session

A session keeps its outcome apart from the state of its engine. The two agree between any two
happenings: there is no outcome only while the engine takes commands, an outcome other than that of
a lost stream is the one of the engine's final state, and a session that has lost a stream leaves
its engine where it was. Once there is an outcome, nothing changes any more: no happening reaches
the engine, no command is decoded, and the output, if it is to be ended at all, was ended in the
moment in which the outcome was found.

## Main definitions

* `DebugWire.Sink.Onward` — one sink comes of another without being ended.
* `DebugWire.Session.Agrees` — the outcome agrees with the engine.
* `DebugWire.Session.Coherent` — and the output has ended if it should have.
* `DebugWire.Session.Stays` — what is left of a session that is over.

## Main results

* `DebugWire.Session.coherent_happen`, `DebugWire.Session.coherent_run` — what happens to a session.
* `DebugWire.Session.stays_happen`, `DebugWire.Session.stays_run` — what happens to one that is
  over.
* `DebugWire.Session.outcome_run_start` — the outcome of a session, and what comes behind it.
-/

namespace DebugWire

/-! ## Sinks -/

namespace Sink

variable {s s' s'' : Sink} {p q : Prop}

/-- Whether a sink has failed, be it that the failure is still to be reported. -/
def hasFailed (s : Sink) : Bool :=
  match s.state with
  | .failing _ | .failed => true
  | .ready | .ended => false

/-- A sink comes *onward* to another: it was not ended meanwhile, and if it has failed, so has the
other. -/
structure Onward (s s' : Sink) : Prop where
  isEnded : s'.isEnded = s.isEnded
  hasFailed : s.hasFailed = true → s'.hasFailed = true

/-- A sink to which nothing happens goes on, with all that it has been. -/
lemma Onward.refl (s : Sink) : Onward s s := ⟨rfl, id⟩

/-- What goes on in two steps goes on, and neither step takes an end back. -/
lemma Onward.trans (h : Onward s s') (h' : Onward s' s'') : Onward s s'' :=
  ⟨h'.isEnded.trans h.isEnded, fun hf => h'.hasFailed (h.hasFailed hf)⟩

/-- A write neither ends a sink nor makes a failure undone. -/
lemma onward_write (s : Sink) : Onward s s.write.1 := by
  obtain ⟨state, failure⟩ := s
  cases state with
  | ready => cases failure <;> exact ⟨rfl, nofun⟩
  | failing message | failed | ended => exact .refl _

/-- A failure neither ends a sink nor makes another one undone. -/
lemma onward_fail (s : Sink) : Onward s s.fail.1 := by
  obtain ⟨state, failure⟩ := s
  cases state with
  | ready => exact ⟨rfl, nofun⟩
  | failing message | failed | ended => exact .refl _

/-- Taking up a failure neither ends a sink nor makes the failure undone. -/
lemma onward_settle (s : Sink) : Onward s s.settle.1 := by
  obtain ⟨state, failure⟩ := s
  cases state with
  | failing message => exact ⟨rfl, fun _ => rfl⟩
  | ready | failed | ended => exact .refl _

/-- A sink *ends if* a condition holds: it has ended exactly if the condition holds and it has not
failed. -/
def EndsIf (s : Sink) (p : Prop) : Prop := s.isEnded = true ↔ p ∧ s.hasFailed = false

/-- A sink that has ended has not failed, as it takes nothing any more that could. -/
lemma hasFailed_of_isEnded (h : s.isEnded = true) : s.hasFailed = false := by
  obtain ⟨state, failure⟩ := s
  cases state with
  | ended => rfl
  | ready | failing message | failed => cases h

/-- The condition of an end may be replaced by an equivalent one. -/
lemma EndsIf.congr (h : s.EndsIf p) (hpq : p ↔ q) : s.EndsIf q := by
  rwa [EndsIf, ← hpq]

/-- A sink that has ended only on a condition, and then unless it has failed, stays so when it goes
on. -/
lemma EndsIf.onward (h : s.EndsIf p) (hs : Onward s s') : s'.EndsIf p := by
  constructor
  · intro he
    have hp : p := (h.1 (hs.isEnded ▸ he)).1
    exact ⟨hp, hasFailed_of_isEnded he⟩
  · rintro ⟨hp, hf⟩
    have hf' : s.hasFailed = false := Bool.eq_false_iff.2 fun ht =>
      absurd (hs.hasFailed ht) (Bool.eq_false_iff.1 hf)
    exact hs.isEnded.trans (h.2 ⟨hp, hf'⟩)

/-- A new sink has not ended, whether its first write will fail or not. -/
lemma endsIf_fresh (failure : Option String) : (fresh failure).EndsIf False :=
  iff_of_false nofun fun h => h.1

/-- Ending a sink that was not ended before ends it, unless it has failed. -/
lemma EndsIf.finish (h : s.EndsIf False) : s.finish.1.EndsIf True := by
  obtain ⟨state, failure⟩ := s
  cases state with
  | ready => exact iff_of_true rfl ⟨trivial, rfl⟩
  | failing message | failed => exact iff_of_false nofun fun h => nomatch h.2
  | ended => exact (h.1 rfl).1.elim

end Sink

/-! ## States and outcomes -/

namespace Outcome

/-- No state of an engine is that of a lost stream. -/
lemma ofState?_ne_disconnected (state : EngineState) : ofState? state ≠ some disconnected := by
  match state with
  | .idle | .suspended _ | .stopped | .finished .endOfProgram | .finished .crashed => exact nofun

/-- Each other outcome is that of one state, so it can be told from the state alone. -/
lemma eq_of_ofState?_eq_some {state : EngineState} {outcome : Outcome}
    (h : ofState? state = some outcome) :
    (outcome = stopped → state = .stopped) ∧
      (outcome = endOfProgram → state = .finished .endOfProgram) ∧
      (outcome = crashed → state = .finished .crashed) := by
  match state, h with
  | .stopped, rfl => exact ⟨fun _ => rfl, nofun, nofun⟩
  | .finished .endOfProgram, rfl => exact ⟨nofun, fun _ => rfl, nofun⟩
  | .finished .crashed, rfl => exact ⟨nofun, nofun, fun _ => rfl⟩

end Outcome

namespace Session

open SessionTrace (commands)

variable {s : Session} {ends : Bool}

/-! ## Outcome and engine -/

/-- The outcome of a session *agrees* with its engine. -/
inductive Agrees (s : Session) : Prop
  /-- The session is running, and so is the engine. -/
  | running (ho : s.outcome = none) (he : Engine.Live s.engine)
  /-- A stream was lost while the engine took commands. -/
  | cutOff (ho : s.outcome = some .disconnected) (he : Engine.Live s.engine)
  /-- The engine has come to its end, and the outcome is that end. -/
  | ended {outcome : Outcome} (ho : s.outcome = some outcome)
    (hs : Outcome.ofState? s.engine.state = some outcome) (he : Engine.Rests s.engine)

/-- The engine of a session without an outcome, or with that of a lost stream, still takes commands.
-/
lemma Agrees.terminated (h : Agrees s) (ho : s.outcome = none ∨ s.outcome = some .disconnected) :
    s.engine.terminated = false := by
  cases h with
  | running _ he | cutOff _ he => exact he.terminated
  | ended ho' hs he =>
    rcases ho with ho | ho
    · rw [ho] at ho'
      cases ho'
    · obtain rfl := Option.some.inj (ho.symm.trans ho')
      exact absurd hs (Outcome.ofState?_ne_disconnected _)

/-- An outcome other than that of a lost stream is the one of the engine's state. -/
lemma Agrees.ofState? (h : Agrees s) {outcome : Outcome} (ho : s.outcome = some outcome)
    (hd : outcome ≠ .disconnected) : Outcome.ofState? s.engine.state = some outcome := by
  cases h with
  | running ho' =>
    rw [ho] at ho'
    cases ho'
  | cutOff ho' => exact absurd (Option.some.inj (ho.symm.trans ho')) hd
  | ended ho' hs =>
    obtain rfl := Option.some.inj (ho.symm.trans ho')
    exact hs

/-- A session is *coherent* if its outcome agrees with its engine and its output has ended if it
should have. -/
structure Coherent (ends : Bool) (s : Session) : Prop where
  agrees : Agrees s
  endsOutput : s.endsOutput = ends
  output : s.output.EndsIf (ends = true ∧ s.outcome ≠ none)

/-- The engine of a coherent session without an outcome is live. -/
lemma Coherent.live (h : Coherent ends s) (ho : s.outcome = none) : Engine.Live s.engine := by
  cases h.agrees with
  | running _ he => exact he
  | cutOff ho' | ended ho' =>
    rw [ho] at ho'
    cases ho'

/-- Neither the outcome nor the output depends on the bytes that wait. -/
lemma Coherent.withReader (h : Coherent ends s) (reader : Reader) :
    Coherent ends { s with reader := reader } where
  agrees := by
    cases h.agrees with
    | running ho he => exact .running ho he
    | cutOff ho he => exact .cutOff ho he
    | ended ho hs he => exact .ended ho hs he
  endsOutput := h.endsOutput
  output := h.output

/-- An output that was not ended meanwhile may stand in place of the other. -/
lemma Coherent.withOutput (h : Coherent ends s) {output : Sink} (ho : s.output.Onward output) :
    Coherent ends { s with output := output } where
  agrees := by
    cases h.agrees with
    | running ho he => exact .running ho he
    | cutOff ho he => exact .cutOff ho he
    | ended ho hs he => exact .ended ho hs he
  endsOutput := h.endsOutput
  output := h.output.onward ho

/-! ## Parts of the work -/

/-- Passing on what the engine has let out changes the output only, and does not end it.

**Proof sketch.** Induction on what is let out: an event is written if it has an encoding, which
leaves the output going on, and a log is not. -/
lemma passOn_frame (s : Session) (trace : List Emission) :
    ∃ output, s.output.Onward output ∧ (s.passOn trace).1 = { s with output := output } := by
  induction trace generalizing s with
  | nil => exact ⟨s.output, .refl _, rfl⟩
  | cons x trace ih =>
    cases x with
    | log entry => exact ih s
    | event e =>
      have hw :
          ∃ output, s.output.Onward output ∧ (s.writeEvent e).1 = { s with output := output } := by
        unfold writeEvent
        cases e.encode with
        | ok bytes => exact ⟨s.output.write.1, s.output.onward_write, rfl⟩
        | error f => exact ⟨s.output, .refl _, rfl⟩
      obtain ⟨output, hon, hs⟩ := hw
      obtain ⟨output', hon', hs'⟩ := ih { s with output := output }
      refine ⟨output', hon.trans hon', ?_⟩
      simp only [passOn, hs]
      exact hs'

/-- Closing a session that is not over gives it its outcome, empties its reader, and ends its output
if that is to be ended. -/
lemma close_of_running (ho : s.outcome = none) (outcome : Outcome) :
    (s.close outcome).1 =
      { s with
        outcome := some outcome
        reader := .empty
        output := if s.endsOutput then s.output.finish.1 else s.output } := by
  rw [close, if_neg (by rw [ho]; exact Bool.false_ne_true)]

/-- A session that is over is not closed again. -/
lemma close_of_over (ho : s.outcome ≠ none) (outcome : Outcome) : s.close outcome = (s, []) :=
  if_pos (Option.isSome_iff_ne_none.2 ho)

/-- The output of a session that is closed has ended if it should have. -/
lemma output_close_of_running (he : s.endsOutput = ends) (ho : s.outcome = none)
    (h : s.output.EndsIf False) (outcome : Outcome) :
    (s.close outcome).1.output.EndsIf (ends = true ∧ (s.close outcome).1.outcome ≠ none) := by
  rw [close_of_running ho]
  subst he
  cases hs : s.endsOutput with
  | true => exact h.finish.congr (iff_of_true trivial ⟨rfl, nofun⟩)
  | false => exact h.congr (iff_of_false id fun hf => nomatch hf.1)

/-- The output of a session that runs has not ended. -/
lemma Coherent.output_of_running (h : Coherent ends s) (ho : s.outcome = none) :
    s.output.EndsIf False :=
  h.output.congr (iff_of_false (fun hn => hn.2 ho) id)

/-- A coherent session that loses a stream is coherent. -/
lemma Coherent.disconnect (h : Coherent ends s) : Coherent ends (s.close .disconnected).1 := by
  by_cases ho : s.outcome = none
  · refine ⟨.cutOff ?_ ?_, ?_, output_close_of_running h.endsOutput ho (h.output_of_running ho) _⟩
    all_goals rw [close_of_running ho]
    · exact h.live ho
    · exact h.endsOutput
  · rw [close_of_over ho]
    exact h

/-- A session whose engine has done its work is coherent after it has looked whether that was the
end.

**Proof sketch.** The state of a live engine is that of no outcome, and the session runs on. The
state of an engine that rests is that of an outcome, with which the session is closed. -/
lemma coherent_closeIfOver (ho : s.outcome = none) (he : s.endsOutput = ends)
    (hout : s.output.EndsIf False)
    (hdone : Engine.Live s.engine ∨ Engine.Rests s.engine) : Coherent ends s.closeIfOver.1 := by
  have hsome := Outcome.isSome_ofState? s.engine.state
  unfold closeIfOver
  cases hof : Outcome.ofState? s.engine.state with
  | none =>
    rw [hof] at hsome
    have hlive : Engine.Live s.engine :=
      hdone.resolve_right fun hr => absurd (hsome.trans hr.terminated) Bool.false_ne_true
    exact ⟨.running ho hlive, he, hout.congr (iff_of_false id fun hn => hn.2 ho)⟩
  | some outcome =>
    rw [hof] at hsome
    have hrests : Engine.Rests s.engine :=
      hdone.resolve_left fun hl => absurd (hl.terminated.symm.trans hsome.symm) Bool.false_ne_true
    refine ⟨?_, ?_, output_close_of_running he ho hout outcome⟩
    all_goals dsimp only; rw [close_of_running ho]
    · exact .ended rfl hof hrests
    · exact he

/-- Taking up an error changes the output only, and does not end it. -/
lemma takeItem_malformed_frame (s : Session) (cause : Malformed) :
    ∃ output, s.output.Onward output ∧
      (s.takeItem (.malformed cause)).1 = { s with output := output } :=
  passOn_frame s (s.engine.report cause.message).2

/-- Taking up a command changes the engine and the output, which is not ended, and then looks
whether that was the end. -/
lemma takeItem_value_frame (s : Session) (c : Command) :
    ∃ output, s.output.Onward output ∧ (s.takeItem (.value c)).1 =
      (closeIfOver { s with engine := (s.engine.handle c).1, output := output }).1 := by
  obtain ⟨output, hon, hs⟩ :=
    passOn_frame { s with engine := (s.engine.handle c).1 } (s.engine.handle c).2
  exact ⟨output, hon, congrArg (fun s => (closeIfOver s).1) hs⟩

/-- Taking up an item in a coherent session that is not over.

**Proof sketch.** A malformed chunk only brings forth an output. A command leaves the engine live or
at rest, and the session closes exactly if it is at rest, with the outcome of its state. -/
lemma Coherent.takeItem (h : Coherent ends s) (ho : s.outcome = none) (item : Item Command) :
    Coherent ends (s.takeItem item).1 := by
  cases item with
  | malformed cause =>
    obtain ⟨output, hon, hr⟩ := takeItem_malformed_frame s cause
    rw [hr]
    exact h.withOutput hon
  | value c =>
    obtain ⟨output, hon, hr⟩ := takeItem_value_frame s c
    have hout : output.EndsIf False := (h.output_of_running ho).onward hon
    have hdone := (Engine.tells_handle (h.live ho) c).live_or_rests
    rw [hr]
    exact coherent_closeIfOver ho h.endsOutput hout hdone

/-- Taking up all items that wait leaves a coherent session coherent, since each of them does. -/
lemma Coherent.pump (h : Coherent ends s) : Coherent ends s.pump.1 := by
  revert h
  refine pump_induction (motive := fun s result => Coherent ends s →
    Coherent ends result.1) (fun _ h => h) ?_ s
  -- the item may end the session; pumping on takes up nothing then
  intro s item reader ho _ ih h
  exact ih ((h.withReader reader).takeItem ho item)

/-! ## One happening -/

/-- A chunk leaves a coherent session coherent, whether it is read or comes in behind the end. -/
lemma Coherent.receive (h : Coherent ends s) (chunk : Bytes) :
    Coherent ends (s.receive chunk).1 := by
  unfold Session.receive
  split_ifs
  · exact h
  · exact (h.withReader (s.reader.push chunk)).pump

/-- The end of the input leaves a coherent session coherent. -/
lemma Coherent.inputEnded (h : Coherent ends s) : Coherent ends s.inputEnded.1 := by
  unfold Session.inputEnded
  split_ifs
  · exact h
  all_goals exact h.disconnect

/-- A failure of the input leaves a coherent session coherent. -/
lemma Coherent.inputFailed (h : Coherent ends s) (message : String) :
    Coherent ends (s.inputFailed message).1 := by
  unfold Session.inputFailed
  split_ifs
  · exact h
  · exact h.disconnect

/-- A failure of the output leaves a coherent session coherent. -/
lemma Coherent.outputFailed (h : Coherent ends s) (message : String) :
    Coherent ends (s.outputFailed message).1 := by
  have hf := h.withOutput s.output.onward_fail
  unfold Session.outputFailed
  dsimp only
  split_ifs
  · exact hf.disconnect
  · exact hf

/-- Taking up a failed write leaves a coherent session coherent. -/
lemma Coherent.settle (h : Coherent ends s) : Coherent ends s.settle.1 := by
  have hon := s.output.onward_settle
  unfold Session.settle
  split
  case h_1 output message hs =>
    rw [hs] at hon
    exact (h.withOutput hon).disconnect
  case h_2 => exact h

/-- **One happening** leaves a coherent session coherent.

**Proof sketch.** One case for each happening. A text that is printed changes the output only, by
`passOn_frame`. -/
theorem coherent_happen (h : Coherent ends s) (x : Happening) : Coherent ends (s.happen x).1 := by
  have hrespond : Coherent ends (s.respond x).1 := by
    cases x with
    | received chunk => exact h.receive chunk
    | inputEnded => exact h.inputEnded
    | inputFailed message => exact h.inputFailed message
    | outputFailed message => exact h.outputFailed message
    | printed p =>
      obtain ⟨output, hon, hs⟩ := passOn_frame s (s.engine.printed p).2
      have hr : (s.respond (.printed p)).1 = { s with output := output } := hs
      rw [hr]
      exact h.withOutput hon
  -- a write that has failed meanwhile loses the stream, after the engine has done its work
  exact hrespond.settle

/-- Happenings, one after the other, leave a coherent session coherent. -/
theorem coherent_run (h : Coherent ends s) (xs : List Happening) : Coherent ends (s.run xs).1 := by
  induction xs generalizing s with
  | nil => exact h
  | cons x xs ih => exact ih (coherent_happen h x)

/-- A session is coherent at its start: it runs, its engine is live, and its output has not ended.
-/
lemma coherent_start (machine : Machine) (logCommands endsOutput : Bool) (failure : Option String) :
    Coherent endsOutput (start (.start machine logCommands) endsOutput failure) where
  agrees := .running rfl ⟨rfl, rfl⟩
  endsOutput := rfl
  output := (Sink.endsIf_fresh failure).congr (iff_of_false id fun hn => hn.2 rfl)

/-! ## Sessions that are over -/

/-- What is left of a session that is over, and what it has let out: the outcome and the engine
*stay*, the output is not ended any more, and no command is decoded. -/
structure Stays (s : Session) (result : Session × List SessionTrace) : Prop where
  outcome : result.1.outcome = s.outcome
  engine : result.1.engine = s.engine
  output : s.output.Onward result.1.output
  commands : commands result.2 = []

/-- A session to which nothing is done stays as it is. -/
lemma Stays.refl (s : Session) : Stays s (s, []) := ⟨rfl, rfl, .refl _, rfl⟩

/-- A session that stays in two steps stays, and no event or write comes of either. -/
lemma Stays.trans {r r' : Session × List SessionTrace} (h : Stays s r) (h' : Stays r.1 r') :
    Stays s (r'.1, r.2 ++ r'.2) where
  outcome := h'.outcome.trans h.outcome
  engine := h'.engine.trans h.engine
  output := h.output.trans h'.output
  commands := by rw [SessionTrace.commands_append, h.commands, h'.commands]; rfl

/-- That a failure of the output is reported leaves all else of a session that is over. -/
lemma outputReported_of_over (ho : s.outcome ≠ none) (message : String) :
    s.outputReported message = (s, [.note .error ("Output stream error: " ++ message)]) := by
  rw [outputReported, close_of_over ho]

/-- Taking up a failed write in a session that is over comes to a note.

**Proof sketch.** If a write has failed then that is noted, as nobody is left to be told. Otherwise
nothing is done. -/
lemma settle_of_over (ho : s.outcome ≠ none) :
    ∃ (output : Sink) (notes : List Log), s.output.Onward output ∧
    (s.output = .fresh none → output = s.output) ∧
      s.settle = ({ s with output := output }, notes.map .log) := by
  have hon := s.output.onward_settle
  unfold settle
  split
  case h_1 output message hs =>
    rw [hs] at hon
    refine ⟨output, [_], hon, fun hf => ?_,
      outputReported_of_over (s := { s with output := output }) ho message⟩
    rw [hf] at hs
    cases hs
  case h_2 => exact ⟨s.output, [], .refl _, fun _ => rfl, rfl⟩

/-- What happens to a session that is over, other than that the machine prints, comes to a note.
Only a failure of the output leaves another output.

**Proof sketch.** One case for each happening. Input is not looked at any more, and its end or
failure is nothing new; a failure of the output is logged, unless one was reported before. -/
lemma respond_of_over (ho : s.outcome ≠ none) {x : Happening} (hx : ∀ p, x ≠ .printed p) :
    ∃ (output : Sink) (notes : List Log), s.output.Onward output ∧
      ((∀ message, x ≠ .outputFailed message) → output = s.output) ∧
      s.respond x = ({ s with output := output }, notes.map .log) := by
  have hover : s.outcome.isSome = true := Option.isSome_iff_ne_none.2 ho
  cases x with
  | received chunk => exact ⟨s.output, [], .refl _, fun _ => rfl, if_pos hover⟩
  | inputEnded => exact ⟨s.output, [], .refl _, fun _ => rfl, if_pos hover⟩
  | inputFailed message => exact ⟨s.output, [], .refl _, fun _ => rfl, if_pos hover⟩
  | outputFailed message =>
    have hr := outputReported_of_over (s := { s with output := s.output.fail.1 }) ho message
    rw [respond, outputFailed]
    dsimp only
    split_ifs
    · exact ⟨s.output.fail.1, [_], s.output.onward_fail, fun hn => absurd rfl (hn message), hr⟩
    · exact ⟨s.output.fail.1, [], s.output.onward_fail, fun hn => absurd rfl (hn message), rfl⟩
  | printed p => exact absurd rfl (hx p)

/-- Another output and notes are no matter for a session that is over. -/
lemma stays_notes {output : Sink} (hon : s.output.Onward output) (notes : List Log) :
    Stays s ({ s with output := output }, notes.map .log) :=
  ⟨rfl, rfl, hon, List.filterMap_eq_nil_iff.2 (by simp [SessionTrace.command?])⟩

/-- A session that is over stays when it takes up a failed write. -/
lemma stays_settle (ho : s.outcome ≠ none) : Stays s s.settle := by
  obtain ⟨output, notes, hon, -, hs⟩ := settle_of_over ho
  rw [hs]
  exact stays_notes hon notes

/-- A session that is over stays, whatever happens to it. -/
lemma stays_respond (ho : s.outcome ≠ none) (x : Happening) : Stays s (s.respond x) := by
  by_cases hx : ∃ p, x = .printed p
  · obtain ⟨p, rfl⟩ := hx
    obtain ⟨output, hon, hs⟩ := passOn_frame s (s.engine.printed p).2
    have hr : (s.respond (.printed p)).1 = { s with output := output } := hs
    exact ⟨by rw [hr], by rw [hr], by rw [hr]; exact hon, commands_passOn _ _⟩
  · obtain ⟨output, notes, hon, -, hs⟩ := respond_of_over ho fun p hp => hx ⟨p, hp⟩
    rw [hs]
    exact stays_notes hon notes

/-- **One happening** leaves a session that is over as it is. -/
theorem stays_happen (ho : s.outcome ≠ none) (x : Happening) : Stays s (s.happen x) := by
  have hrespond := stays_respond ho x
  exact hrespond.trans (stays_settle (by rw [hrespond.outcome]; exact ho))

/-- A session that is over stays, however much happens to it. -/
theorem stays_run (ho : s.outcome ≠ none) (xs : List Happening) : Stays s (s.run xs) := by
  induction xs generalizing s with
  | nil => exact .refl s
  | cons x xs ih =>
    have hx := stays_happen ho x
    exact hx.trans (ih (by rw [hx.outcome]; exact ho))

/-! ## Sessions from their start -/

/-- **The outcome of a session**, after anything that has happened to it.
* Without an outcome the engine takes commands.
* An outcome other than that of a lost stream is the one of the engine's final state. The engine of
  a session that has lost a stream still takes commands.
* The output has ended exactly if it was to be ended, there is an outcome, and it has not failed.
* Once there is an outcome it is the answer to being run again, and whatever happens, the outcome
  and the engine stay, the output is not ended again, and no command is decoded.

**Proof sketch.** The session is coherent after any run. So its outcome agrees with the state of the
engine, and its output has ended on the condition of the statement. What happens afterwards is the
subject of `stays_run`. -/
theorem outcome_run_start (machine : Machine) (logCommands endsOutput : Bool)
    (failure : Option String) (xs : List Happening) {s : Session} {trace : List SessionTrace}
    (hr : (start (.start machine logCommands) endsOutput failure).run xs = (s, trace)) :
    (s.outcome = none → s.engine.terminated = false) ∧
    (s.outcome = some .stopped → s.engine.state = .stopped) ∧
    (s.outcome = some .endOfProgram → s.engine.state = .finished .endOfProgram) ∧
    (s.outcome = some .crashed → s.engine.state = .finished .crashed) ∧
    (s.outcome = some .disconnected → s.engine.terminated = false) ∧
    (s.output.isEnded = true ↔ (endsOutput = true ∧ s.outcome ≠ none) ∧
      s.output.hasFailed = false) ∧
    ∀ outcome, s.outcome = some outcome → s.rerun? = some (s, outcome) ∧
    ∀ ys, Stays s (s.run ys) := by
  obtain ⟨hagrees, -, houtput⟩ : Coherent endsOutput s := by
    have hc := coherent_run (coherent_start machine logCommands endsOutput failure) xs
    rwa [hr] at hc
  have hstate {outcome : Outcome} (ho : s.outcome = some outcome) (hd : outcome ≠ .disconnected) :=
    Outcome.eq_of_ofState?_eq_some (hagrees.ofState? ho hd)
  refine ⟨fun ho => ?_, fun ho => ?_, fun ho => ?_, fun ho => ?_, fun ho => ?_, houtput,
    fun outcome ho => ?_⟩
  · exact hagrees.terminated (.inl ho)
  · exact (hstate ho nofun).1 rfl
  · exact (hstate ho nofun).2.1 rfl
  · exact (hstate ho nofun).2.2 rfl
  · exact hagrees.terminated (.inr ho)
  · have hagain : s.rerun? = some (s, outcome) := by
      rw [rerun?, ho]
      rfl
    exact ⟨hagain, stays_run (by rw [ho]; exact nofun)⟩

/-- A stop, with a step behind it in the same chunk; behind the end there is another step, a failure
of the input and one of the output. -/
theorem outcome_run_start_of_stop :
    ∃ s trace,
      (start (.start (.initial [(0, .nop)] 0 {}) false) true none).run [.received [0x71, 0x65]] =
        (s, trace) ∧
      s.outcome = some .stopped ∧ s.engine.state = .stopped ∧ s.output.isEnded = true ∧
      (s.run [.received [0x65], .inputFailed "a", .outputFailed "b"]).1.outcome =
        some .stopped := by
  obtain ⟨s₀, hs₀⟩ : ∃ s₀, s₀ = start (.start (.initial [(0, .nop)] 0 {}) false) true none :=
    ⟨_, rfl⟩
  have hpump : (pump { s₀ with reader := ⟨[0x71, 0x65]⟩ }).1 =
      (takeItem { s₀ with reader := ⟨[0x65]⟩ } (.value .stop)).1 := by
    have hover : (takeItem { s₀ with reader := ⟨[0x65]⟩ } (.value .stop)).1.outcome ≠ none := by
      rw [hs₀]
      exact nofun
    have ho : s₀.outcome = none := by rw [hs₀]; rfl
    have hnext : Reader.next? Command.format ⟨[0x71, 0x65]⟩ = some (.value .stop, ⟨[0x65]⟩) := rfl
    rw [pump_of_next?_eq_some (s := { s₀ with reader := ⟨[0x71, 0x65]⟩ }) ho hnext]
    dsimp only
    rw [pump_of_outcome hover]
  have hrun : (s₀.run [.received [0x71, 0x65]]).1 =
      (settle (takeItem { s₀ with reader := ⟨[0x65]⟩ } (.value .stop)).1).1 := by
    rw [← hpump, hs₀]
    rfl
  have ho : (s₀.run [.received [0x71, 0x65]]).1.outcome = some .stopped := by
    rw [hrun, hs₀]
    rfl
  have hf : (s₀.run [.received [0x71, 0x65]]).1.output.hasFailed = false := by
    rw [hrun, hs₀]
    rfl
  subst hs₀
  obtain ⟨-, hstopped, -, -, -, hended, hstays⟩ := outcome_run_start _ _ true none _ rfl
  exact ⟨_, _, rfl, ho, hstopped ho, hended.2 ⟨⟨rfl, by rw [ho]; exact nofun⟩, hf⟩,
    ((hstays _ ho).2 _).outcome.trans ho⟩

end Session

end DebugWire
