import DebugWire.Proofs.Engine.Stepping
import DebugWire.Proofs.Session.Outcome
import DebugWire.Proofs.Session.Silence

set_option relaxedAutoImplicit false
set_option autoImplicit false

/-!
# Events of a session can be written

Writing an event raises a fault if the event has no frames. Nothing between the streams of a session
and that fault would stop it: it would get out of the callback that takes input, or into the machine
that prints. A *strict* session raises it. It never does so, whatever the machine is and whatever
happens: each breakpoint that a session tells of is one that the commands handled up to then have
left in the set, which holds 16-bit addresses only.

## Main definitions

* `DebugWire.SessionTrace.Backed` — a trace tells of no breakpoint that there is not at that moment.
* `DebugWire.Session.Tracks` — what a session has done to its engine and told of it.
* `DebugWire.Session.Strict.run` — a session that raises the fault of an event that cannot be
  written.

## Main results

* `DebugWire.Session.tracks_run` — a session and what it tells of its engine.
* `DebugWire.Session.Strict.run_eq` — a strict session does what a session does.
* `DebugWire.Session.encodes_run_start` — the events of a session.
-/

namespace DebugWire

/-! ## Traces -/

namespace SessionTrace

/-- What a trace tells of is *backed* by an engine that handles the commands of the trace: each
event is backed by the breakpoints that there are at that moment. -/
def Backed (e : Engine) : List SessionTrace → Prop
  | [] => True
  | .command c :: t => Backed (e.handle c).1 t
  | .event ev :: t => ev.Backed e.breakpoints ∧ Backed e t
  | .write _ :: t | .log _ :: t => Backed e t

variable {e : Engine} {t t' : List SessionTrace}

/-- A trace is backed if its first part is, and its second part behind the commands of the first. -/
lemma backed_append : Backed e (t ++ t') ↔ Backed e t ∧ Backed (e.after (commands t)) t' := by
  induction t generalizing e with
  | nil => exact (and_iff_right trivial).symm
  | cons x t ih =>
    cases x with
    | command c => exact ih
    | event ev => rw [List.cons_append, Backed, ih, Backed, and_assoc]; rfl
    | write bytes | log entry => exact ih

/-- A trace without commands is backed if its events are. -/
lemma backed_of_commands_eq_nil (hc : commands t = [])
    (h : ∀ ev ∈ events t, ev.Backed e.breakpoints) :
    Backed e t := by
  induction t with
  | nil => trivial
  | cons x t ih =>
    cases x with
    | command c => cases hc
    | event ev =>
      exact ⟨h ev List.mem_cons_self, ih hc fun ev' hev => h ev' (List.mem_cons_of_mem ev hev)⟩
    | write bytes | log entry => exact ih hc h

end SessionTrace

namespace Session

open SessionTrace (Backed commands events)

variable {s : Session} {e : Engine}

/-! ## The engine of a session -/

/-- What a session has done *tracks* its engine: that is where the commands have brought it, and
what was told of it is backed. -/
structure Tracks (e : Engine) (result : Session × List SessionTrace) : Prop where
  engine : result.1.engine = e.after (commands result.2)
  backed : Backed e result.2

/-- What tells of no command tracks an engine that it leaves alone. -/
lemma Tracks.of_quiet {result : Session × List SessionTrace} (he : result.1.engine = e)
    (hc : commands result.2 = []) (h : ∀ ev ∈ events result.2, ev.Backed e.breakpoints) :
    Tracks e result where
  engine := by rw [he, hc]; rfl
  backed := SessionTrace.backed_of_commands_eq_nil hc h

/-- Nothing done tracks the engine, if it is that of the session. -/
lemma tracks_nil (he : s.engine = e) : Tracks e (s, []) := .of_quiet he rfl fun _ h =>
    absurd h List.not_mem_nil

/-- One after the other: what is done first tracks the engine, and what is done then tracks the one
that the first has left. -/
lemma Tracks.append {r r' : Session × List SessionTrace} (h : Tracks e r)
    (h' : Tracks r.1.engine r') :
    Tracks e (r'.1, r.2 ++ r'.2) where
  engine := by rw [h'.engine, h.engine, SessionTrace.commands_append, Engine.after_append]
  backed := SessionTrace.backed_append.2 ⟨h.backed, h.engine ▸ h'.backed⟩

/-- A note in front tells of nothing, so the engine is tracked as it was. -/
lemma Tracks.log_cons {r : Session × List SessionTrace} (h : Tracks e r) (entry : Log) :
    Tracks e (r.1, .log entry :: r.2) := ⟨h.engine, h.backed⟩

/-- Passing on what is backed tracks the engine, as its breakpoints stay. -/
lemma tracks_passOn {trace : List Emission} (h : Emission.Backed s.engine.breakpoints trace) :
    Tracks s.engine (s.passOn trace) := by
  obtain ⟨output, -, hs⟩ := passOn_frame s trace
  refine .of_quiet (by rw [hs]) (commands_passOn s trace) fun ev hev => ?_
  rw [events_passOn] at hev
  exact h ev hev

/-- Closing tracks the engine, as it does nothing with it and tells of no event. -/
lemma tracks_close (s : Session) (outcome : Outcome) : Tracks s.engine (s.close outcome) := by
  unfold close
  split_ifs <;> exact .of_quiet rfl rfl fun _ h => absurd h List.not_mem_nil

/-- Closing a session that is over tracks the engine. -/
lemma tracks_closeIfOver (s : Session) : Tracks s.engine s.closeIfOver := by
  unfold closeIfOver
  split
  · exact tracks_close s _
  · exact tracks_nil rfl

/-- Taking up an item tracks the engine.

**Proof sketch.** An error is reported, which is no event that a breakpoint could back. A command is
handled, and a breakpoint that it tells of was looked up in the set that it has left, since a step
leaves the set as it is. -/
lemma tracks_takeItem (s : Session) (item : Item Command) : Tracks s.engine (s.takeItem item) := by
  cases item with
  | malformed cause =>
    have hreport : Tracks s.engine (s.took (s.engine.report cause.message)) :=
      tracks_passOn (.cons_event trivial Emission.backed_nil)
    exact hreport.log_cons _
  | value c =>
    have hbacked : Emission.Backed (s.engine.handle c).1.breakpoints (s.engine.handle c).2 := by
      refine Engine.backed_handle _ c fun hc => ?_
      rw [hc, Engine.breakpoints_handle_step]
    have htook : Tracks (s.engine.handle c).1 (s.took (s.engine.handle c)) :=
      tracks_passOn (s := { s with engine := (s.engine.handle c).1 }) hbacked
    have hdone := htook.append (tracks_closeIfOver _)
    exact ⟨hdone.engine, hdone.backed⟩

/-- Taking up all items that wait tracks the engine. -/
lemma tracks_pump (s : Session) : Tracks s.engine s.pump :=
  pump_induction (motive := fun s result => Tracks s.engine result) (fun _ => tracks_nil rfl)
    (fun s item reader _ _ ih => (tracks_takeItem { s with reader := reader } item).append ih) s

/-- Whatever happens to a session, what it does tracks its engine.

**Proof sketch.** One case for each happening. Only a chunk makes the engine work; what is printed
is backed without any breakpoint, and the rest closes the session or does nothing. -/
lemma tracks_respond (s : Session) (x : Happening) : Tracks s.engine (s.respond x) := by
  cases x with
  | received chunk =>
    rw [respond, receive]
    split_ifs
    · exact tracks_nil rfl
    · exact tracks_pump { s with reader := s.reader.push chunk }
  | inputEnded =>
    rw [respond, inputEnded]
    split_ifs
    · exact tracks_nil rfl
    · exact (tracks_close s _).log_cons _
    · exact tracks_close s _
  | inputFailed message =>
    rw [respond, inputFailed]
    split_ifs
    · exact tracks_nil rfl
    · exact (tracks_close s _).log_cons _
  | outputFailed message =>
    rw [respond, outputFailed]
    dsimp only
    split_ifs
    · exact (tracks_close { s with output := s.output.fail.1 } _).log_cons _
    · exact tracks_nil rfl
  | printed p => exact tracks_passOn (Engine.backed_relayed _ _)

/-- Taking up a failed write tracks the engine, and tells of no breakpoint. -/
lemma tracks_settle (s : Session) : Tracks s.engine s.settle := by
  unfold settle
  split
  case h_1 output message _ => exact (tracks_close { s with output := output } _).log_cons _
  case h_2 => exact tracks_nil rfl

/-- **Whatever happens** to a session, it tracks its engine. -/
theorem tracks_run (s : Session) (xs : List Happening) : Tracks s.engine (s.run xs) := by
  induction xs generalizing s with
  | nil => exact tracks_nil rfl
  | cons x xs ih =>
    have hhappen : Tracks s.engine (s.happen x) := (tracks_respond s x).append (tracks_settle _)
    exact hhappen.append (ih _)

/-! ## Strict sessions -/

namespace Strict

/-- Passes on what the engine has let out, and raises the fault of an event that cannot be written.
-/
def passOn (s : Session) : List Emission → Except Fault (Session × List SessionTrace)
  | [] => .ok (s, [])
  | .event e :: rest => do
    let _ ← e.encode
    let (s', t) ← passOn (s.writeEvent e).1 rest
    return (s', (s.writeEvent e).2 ++ t)
  | .log entry :: rest => do
    let (s', t) ← passOn s rest
    return (s', .log entry :: t)

/-- Takes up what the engine has done. -/
def took (s : Session) (result : Engine × List Emission) :
    Except Fault (Session × List SessionTrace) :=
  passOn { s with engine := result.1 } result.2

/-- Takes up one item that was read. -/
def takeItem (s : Session) : Item Command → Except Fault (Session × List SessionTrace)
  | .malformed cause => do
    let (s', t) ← took s (s.engine.report cause.message)
    return (s', .note .warn cause.message :: t)
  | .value c => do
    let (s', t) ← took s (s.engine.handle c)
    return (s'.closeIfOver.1, .command c :: t ++ s'.closeIfOver.2)

/-- What can be written is passed on.

**Proof sketch.** Induction on the trace. A note is passed on as it is, and the bytes of an event
are there. -/
lemma passOn_eq {s : Session} {trace : List Emission} (h : Emission.AllEncode trace) :
    passOn s trace = .ok (s.passOn trace) := by
  induction trace generalizing s with
  | nil => rfl
  | cons x trace ih =>
    cases x with
    | log entry => rw [passOn, ih h]; rfl
    | event ev =>
      obtain ⟨bytes, hev⟩ := h ev List.mem_cons_self
      rw [passOn, hev, ih fun ev' hev' => h ev' (List.mem_cons_of_mem ev hev')]
      rfl

/-- An item is taken up without a fault.

**Proof sketch.** What the engine tells of a malformed chunk or of a command can be written, so it
is passed on by `passOn_eq`. -/
lemma takeItem_eq (s : Session) (item : Item Command) :
    takeItem s item = .ok (s.takeItem item) := by
  cases item with
  | malformed cause =>
    have hreport : Emission.AllEncode (s.engine.report cause.message).2 :=
      Engine.allEncode_happen s.engine (.report cause.message)
    rw [takeItem, took, passOn_eq hreport]
    rfl
  | value c =>
    rw [takeItem, took, passOn_eq (Engine.allEncode_handle s.engine c)]
    rfl

/-- Takes up all items that the bytes in the reader give, up to the end of the session. -/
def pump (s : Session) : Except Fault (Session × List SessionTrace) :=
  if s.outcome.isSome then .ok (s, [])
  else
    match _h : s.reader.next? Command.format with
    | none => .ok (s, [])
    | some (item, reader) =>
      match _hr : takeItem { s with reader := reader } item with
      | .error f => .error f
      | .ok r => do
        let (s', t) ← pump r.1
        return (s', r.2 ++ t)
termination_by s.reader.size
decreasing_by
  rw [takeItem_eq] at _hr
  obtain rfl := Except.ok.inj _hr
  exact Nat.lt_of_le_of_lt (size_takeItem_le _ _) (Reader.size_lt_of_next? _h)

/-- A chunk of input comes in. -/
def receive (s : Session) (chunk : Bytes) : Except Fault (Session × List SessionTrace) :=
  if s.outcome.isSome then .ok (s, [])
  else pump { s with reader := s.reader.push chunk }

/-- The effect of a happening before a failed write is reported. The end and the failure of a stream
let out no event. -/
def respond (s : Session) : Happening → Except Fault (Session × List SessionTrace)
  | .received chunk => receive s chunk
  | .inputEnded => .ok s.inputEnded
  | .inputFailed message => .ok (s.inputFailed message)
  | .outputFailed message => .ok (s.outputFailed message)
  | .printed p => took s (s.engine.printed p)

/-- The effect of a happening. -/
def happen (s : Session) (h : Happening) : Except Fault (Session × List SessionTrace) := do
  let (s', t) ← respond s h
  return (s'.settle.1, t ++ s'.settle.2)

/-- The effect of happenings, one after the other. -/
def run (s : Session) : List Happening → Except Fault (Session × List SessionTrace)
  | [] => .ok (s, [])
  | h :: hs => do
    let (s₁, t₁) ← happen s h
    let (s₂, t₂) ← run s₁ hs
    return (s₂, t₁ ++ t₂)

/-- All items that wait are taken up without a fault.

**Proof sketch.** Induction on the items, as in `Session.pump`: each is taken up without a fault by
`takeItem_eq`, and the rest is by induction. -/
lemma pump_eq (s : Session) : pump s = .ok s.pump := by
  induction s using Session.pump.induct with
  | case1 s hover => rw [pump, if_pos hover, Session.pump, if_pos hover]
  | case2 s hrunning hnext =>
    rw [pump_of_next?_eq_none hnext, pump, if_neg hrunning]
    split
    case h_1 => rfl
    case h_2 hn =>
      rw [hnext] at hn
      cases hn
  | case3 s hrunning item reader hnext r ih =>
    rw [pump_of_next?_eq_some (Option.not_isSome_iff_eq_none.1 hrunning) hnext, pump,
      if_neg hrunning]
    split
    case h_1 hn =>
      rw [hnext] at hn
      cases hn
    case h_2 hn =>
      rw [hnext] at hn
      obtain ⟨rfl, rfl⟩ := Prod.mk.inj (Option.some.inj hn)
      split
      case h_1 hf =>
        rw [takeItem_eq] at hf
        cases hf
      case h_2 hr =>
        rw [takeItem_eq] at hr
        obtain rfl := Except.ok.inj hr
        rw [ih]
        rfl

/-- Whatever happens to a session, nothing that it does raises a fault. -/
lemma respond_eq (s : Session) (x : Happening) : respond s x = .ok (s.respond x) := by
  cases x with
  | received chunk =>
    rw [respond, receive, Session.respond, Session.receive, pump_eq]
    split_ifs <;> rfl
  | printed p => exact passOn_eq (Engine.allEncode_relayed s.engine [p])
  | inputEnded | inputFailed message | outputFailed message => rfl

/-- **A strict session** does what a session does: it never raises a fault.

**Proof sketch.** Induction on the happenings, each of which is answered without a fault. -/
theorem run_eq (s : Session) (xs : List Happening) : run s xs = .ok (s.run xs) := by
  induction xs generalizing s with
  | nil => rfl
  | cons x xs ih =>
    have hhappen : happen s x = .ok (s.happen x) := by
      rw [happen, respond_eq]
      rfl
    rw [run, hhappen]
    dsimp only [Bind.bind, Except.bind]
    rw [ih]
    rfl

end Strict

/-! ## Sessions from their start -/

/-- **Events of a session can be written**, whatever the machine does and whatever happens to the
streams.
* A strict session does the same: no event raises a fault, neither when input comes in nor when the
  machine prints.
* So each event that is let out has frames.
* Where the session tells of a breakpoint, the set of breakpoints at that moment has it, and it is a
  16-bit address. The set is the one that the commands leave of which the session has told up to
  then.
* At every moment all members of the set are 16-bit addresses.
* The engine is where these commands bring it.

**Proof sketch.** By `tracks_run` the trace is backed by the engine at the start: that is kept by
every part of the work, because an engine tells of a breakpoint only in a step that looks at its
set, and such a step leaves the set as it is. Dividing the trace gives the set at each moment. That
the members have sixteen bits comes with the set, into which no other number is put. -/
theorem encodes_run_start (machine : Machine) (logCommands endsOutput : Bool)
    (failure : Option String) (xs : List Happening) {s : Session} {trace : List SessionTrace}
    (hr : (start (.start machine logCommands) endsOutput failure).run xs = (s, trace)) :
    Strict.run (start (.start machine logCommands) endsOutput failure) xs = .ok (s, trace) ∧
    (∀ ev ∈ events trace, ev.Encodes) ∧
    (∀ before a after, trace = before ++ .event (.breakpointHit a) :: after →
      ((Engine.start machine logCommands).after (commands before)).breakpoints.contains a = true ∧
        (a.within? 0xffff).isSome = true) ∧
    (∀ before after, trace = before ++ after → ∀ x,
      ((Engine.start machine logCommands).after (commands before)).breakpoints.contains x = true →
        (x.within? 0xffff).isSome = true) ∧
    s.engine = (Engine.start machine logCommands).after (commands trace) := by
  have htracks := tracks_run (start (.start machine logCommands) endsOutput failure) xs
  rw [hr] at htracks
  obtain ⟨hengine, hbacked⟩ := htracks
  -- the events behind a moment are backed by the engine at that moment
  have hmoment : ∀ before after, trace = before ++ after →
      Backed ((Engine.start machine logCommands).after (commands before)) after := by
    rintro before after rfl
    exact (SessionTrace.backed_append.1 hbacked).2
  refine ⟨by rw [Strict.run_eq, hr], fun ev hev => ?_, fun before a after h => ?_,
    fun before after _ x hx => ?_, hengine⟩
  · obtain ⟨x, hx, hxe⟩ := List.mem_filterMap.1 hev
    obtain ⟨before, after, h⟩ := List.append_of_mem hx
    cases x with
    | event ev' =>
      obtain rfl := Option.some.inj hxe
      exact (hmoment before (.event ev' :: after) h).1.encodes
    | command c | write bytes | log entry => cases hxe
  · have hcontains := (hmoment before _ h).1
    exact ⟨hcontains, Breakpoints.isSome_within?_of_contains hcontains⟩
  · exact Breakpoints.isSome_within?_of_contains hx

/-- A machine that says its next instruction is far behind the last address, and then before the
first; behind that it comes to a breakpoint. -/
theorem encodes_run_start_of_far_registers :
    ∃ s₀ s trace,
      start (.start (.initial [(0, .nop), (1, .nop)] 0
        { registers := [70000, .whole (-1), 1].map fun pc =>
          some ⟨[], some (.ok { Snapshot.initial 0 with pc })⟩ })
        false) false none = s₀ ∧
      s₀.run [.received [0x62, 0, 1, 0x65], .received [0x65, 0x65]] = (s, trace) ∧
      Strict.run s₀ [.received [0x62, 0, 1, 0x65], .received [0x65, 0x65]] = .ok (s, trace) ∧
      events trace = [.breakpointHit 1] ∧ ∀ ev ∈ events trace, ev.Encodes := by
  obtain ⟨hstrict, hencodes, -⟩ := encodes_run_start (.initial [(0, .nop), (1, .nop)] 0
      { registers := [70000, .whole (-1), 1].map fun pc =>
        some ⟨[], some (.ok { Snapshot.initial 0 with pc })⟩ })
    false false none [.received [0x62, 0, 1, 0x65], .received [0x65, 0x65]] rfl
  exact ⟨_, _, _, rfl, rfl, hstrict, by decide +kernel, hencodes⟩

end Session

end DebugWire
