import DebugWire.Proofs.Client.Abandoned

set_option relaxedAutoImplicit false
set_option autoImplicit false

/-!
# What bears on waits

All that a client does with its waits comes of a few signals: a call begins to wait, a call fails by
itself, an event has come in, the link is gone, the clock goes on. They can be told from outside:
from the calls and the time, and from what the client lets out. The waits that a client has, and the
calls that it settles, are those that the signals give.

## Main definitions

* `DebugWire.Signal` — what bears on waits.
* `DebugWire.Wait.outcome` — what a signal settles a wait with.
* `DebugWire.Signal.run` — what signals make of waits.
* `DebugWire.Client.signals`, `DebugWire.Client.signalsIn` — the signals of a happening, and of a
  run.

## Main results

* `DebugWire.Client.heeds_happen` — one happening.
* `DebugWire.Client.run_signalsIn` — a run.
-/

namespace DebugWire

/-! ## Signals -/

/-- What bears on the waits of a client. -/
inductive Signal where
  /-- A call begins to wait. -/
  | made (w : Wait)
  /-- A call fails by itself. -/
  | refused (call : ℕ) (f : Fault)
  /-- An event has come in. -/
  | heard (e : Event)
  /-- The link is gone. -/
  | gone
  /-- The clock has gone on to a time. -/
  | reached (now : Number)

/-- What a signal settles a wait with, if it does: an event of its kind with the wanted part of
that, the end of the link and the end of its time with a fault. -/
def Wait.outcome (w : Wait) : Signal → Option (Except Fault Answer)
  | .heard e => if w.awaits e then some (w.wanted.part e) else none
  | .gone => some (.error (.closedWhileWaiting w.tag))
  | .reached now => if w.isDue now then some (.error (.timedOut w.limit w.tag)) else none
  | .made _ | .refused .. => none

/-- What is let out when a signal comes to a wait. -/
def Wait.ending (s : Signal) (w : Wait) : List ClientTrace :=
  match w.outcome s with
  | some result => ClientTrace.ofWait w result
  | none => []

namespace Signal

/-- The time after a signal. -/
def clock (now : Number) : Signal → Number
  | reached now' => now'
  | made _ | refused .. | heard _ | gone => now

/-- The waits in the order in which a signal comes to them: the clock comes to those whose time is
over, the earliest deadline first, and any other signal to the oldest first. -/
def order (waits : List Wait) : Signal → List Wait
  | reached now => Wait.due now waits
  | made _ | refused .. | heard _ | gone => waits

/-- What a signal makes of waits: those that go on afterwards, and what is let out meanwhile. -/
def act (waits : List Wait) (s : Signal) : List Wait × List ClientTrace :=
  match s with
  | made w => (waits ++ [w], [])
  | refused call f => (waits, [.settled call (.error f)])
  | heard _ | gone | reached _ =>
    (waits.filter fun w => (w.outcome s).isNone, (s.order waits).flatMap (Wait.ending s))

/-- What signals make of waits, one after the other. -/
def run (waits : List Wait) : List Signal → List Wait × List ClientTrace
  | [] => (waits, [])
  | s :: ss =>
    let (waits₁, t₁) := act waits s
    let (waits₂, t₂) := run waits₁ ss
    (waits₂, t₁ ++ t₂)

variable {waits : List Wait} {s : Signal}

/-- What signals and others make of waits is what the others make of those that are left by the
first. -/
lemma run_append (waits : List Wait) (ss ss' : List Signal) :
    run waits (ss ++ ss') =
      ((run (run waits ss).1 ss').1, (run waits ss).2 ++ (run (run waits ss).1 ss').2) := by
  induction ss generalizing waits with
  | nil => rfl
  | cons s ss ih => simp only [List.cons_append, run, ih, List.append_assoc]

/-- What one signal makes of waits, as a run of no other signal. -/
lemma run_singleton (waits : List Wait) (s : Signal) : run waits [s] = act waits s := by
  simp only [run, List.append_nil]

/-- The waits that a signal leaves, and what is let out of waits in any order, if it is known which
ones it ends.

**Proof sketch.** The first is a filter by the same condition. The second is an induction on the
waits, each of which lets something out only if it is ended. -/
lemma filter_outcome {ends : Wait → Bool} {result : Wait → Except Fault Answer}
    (h : ∀ w, w.outcome s = if ends w then some (result w) else none) (waits : List Wait) :
    (waits.filter fun w => (w.outcome s).isNone) = waits.filter (fun w => !ends w) ∧
      waits.flatMap (Wait.ending s) = (waits.filter ends).flatMap fun w =>
        ClientTrace.ofWait w (result w) := by
  constructor
  · refine List.filter_congr fun w _ => ?_
    rw [h]
    cases ends w <;> rfl
  · induction waits with
    | nil => rfl
    | cons w waits ih =>
      rw [List.flatMap_cons, ih, List.filter_cons, Wait.ending, h]
      cases ends w <;> rfl

end Signal

/-! ## Traces -/

namespace ClientTrace

/-- The signal that a client gives when it lets something out. -/
def signal? : ClientTrace → Option Signal
  | event e => some (.heard e)
  | closed => some .gone
  | sent _ | ended | malformed _ | settled .. => none

/-- Whether a call was settled. -/
def isSettled : ClientTrace → Bool
  | settled .. => true
  | sent _ | ended | event _ | malformed _ | closed => false

/-- Calls that are settled give no signal, so of waits that end only their results are to be seen.
-/
lemma filter_ofWaits (waits : List Wait) (f : Wait → Except Fault Answer) :
    (waits.flatMap fun w => ofWait w (f w)).filterMap signal? = [] ∧
      (waits.flatMap fun w => ofWait w (f w)).filter isSettled = waits.flatMap fun w =>
        ofWait w (f w) := by
  induction waits with
  | nil => exact ⟨rfl, rfl⟩
  | cons w waits ih =>
    rw [List.flatMap_cons, List.filterMap_append, List.filter_append, ih.1, ih.2, ofWait]
    cases w.call <;> exact ⟨rfl, rfl⟩

end ClientTrace

namespace Client

open ClientTrace (signal? isSettled)

variable {c c' : Client} {o : List Signal} {r r' : Client × List ClientTrace} {t : List ClientTrace}

/-! ## Parts of the work -/

/-- Two clients are *alike* if they have the same waits and the same time. -/
structure Alike (c c' : Client) : Prop where
  waits : c'.waits = c.waits
  timeout : c'.timeout = c.timeout
  now : c'.now = c.now

/-- A client *heeds* signals and those that it gives itself: its waits, and the calls that it
settles, are those that all of them give. The clock goes on with the former only. -/
structure Heeds (o : List Signal) (c : Client) (r : Client × List ClientTrace) : Prop where
  /-- Its waits, and the calls that it settles. -/
  waits : Signal.run c.waits (o ++ r.2.filterMap signal?) = (r.1.waits, r.2.filter isSettled)
  /-- The time that a wait may take. -/
  timeout : r.1.timeout = c.timeout
  /-- The clock. -/
  now : r.1.now = o.foldl Signal.clock c.now

/-- Doing one thing after the other, when only the first of them signals more than the trace does.
-/
lemma Heeds.append (h : Heeds o c r) (h' : Heeds [] r.1 r') : Heeds o c (r'.1, r.2 ++ r'.2) where
  waits := by
    have hrest := h'.waits
    rw [List.nil_append] at hrest
    rw [List.filterMap_append, ← List.append_assoc, Signal.run_append, h.waits, hrest,
      List.filter_append]
  timeout := h'.timeout.trans h.timeout
  now := h'.now.trans h.now

/-- Work that has nothing to do with waits: it leaves them and the clock as they are, and neither
signals nor settles. -/
lemma Alike.heeds (h : Alike c c') (ht : ∀ x ∈ t, x.signal? = none ∧ x.isSettled = false) :
    Heeds [] c (c', t) where
  waits := by
    have hsignals : t.filterMap signal? = [] := List.filterMap_eq_nil_iff.2 fun x hx => (ht x hx).1
    have hsettled : t.filter isSettled = [] :=
      List.filter_eq_nil_iff.2 fun x hx => by rw [(ht x hx).2]; exact Bool.false_ne_true
    rw [hsignals, hsettled, h.waits]
    rfl
  timeout := h.timeout
  now := h.now

/-- Doing nothing heeds no signals, and leaves the waits as they are. -/
lemma heeds_nil (c : Client) : Heeds [] c (c, []) :=
  Alike.heeds ⟨rfl, rfl, rfl⟩ fun _ hx => absurd hx List.not_mem_nil

/-- What a client heeds, another one that is alike heeds as well. -/
lemma Heeds.of_alike (h : Heeds o c' r) (ha : Alike c c') : Heeds o c r where
  waits := ha.waits ▸ h.waits
  timeout := h.timeout.trans ha.timeout
  now := ha.now ▸ h.now

/-- An event has come in, and is signalled to the waits by the trace. -/
lemma heeds_hear (c : Client) (e : Event) : Heeds [] c (c.hear e) := by
  obtain ⟨hwaits, htrace⟩ := Signal.filter_outcome (s := .heard e) (fun _ => rfl) c.waits
  obtain ⟨hsignals, hsettled⟩ :=
    ClientTrace.filter_ofWaits (c.waits.filter fun w => w.awaits e) fun w => w.wanted.part e
  have hgiven : (c.hear e).2.filterMap signal? = [.heard e] :=
    congrArg (Signal.heard e :: ·) hsignals
  refine ⟨?_, rfl, rfl⟩
  rw [hgiven, List.nil_append, Signal.run_singleton]
  exact Prod.ext hwaits (htrace.trans hsettled.symm)

/-- Items are taken up one by one, events as well as malformed chunks, and each event is signalled.
-/
lemma heeds_takeItems (c : Client) (items : List (Item Event)) :
    Heeds [] c (c.takeItems items) := by
  induction items generalizing c with
  | nil => exact heeds_nil c
  | cons item items ih =>
    cases item with
    | value e => exact (heeds_hear c e).append (ih (c.hear e).1)
    | malformed cause => exact ⟨(ih c).waits, (ih c).timeout, (ih c).now⟩

/-- A chunk is heard, any number of times, and each event in it is signalled each time. -/
lemma heeds_hearTimes (c : Client) (chunk : Bytes) (n : ℕ) : Heeds [] c (c.hearTimes chunk n) := by
  induction n generalizing c with
  | zero => exact heeds_nil c
  | succ n ih =>
    have hchunk : Heeds [] c (c.hearChunk chunk) := (heeds_takeItems _ _).of_alike ⟨rfl, rfl, rfl⟩
    exact hchunk.append (ih (c.hearChunk chunk).1)

/-- A chunk comes in, and is heard as often as the client listens. -/
lemma heeds_receive (c : Client) (chunk : Bytes) : Heeds [] c (c.receive chunk) := by
  unfold receive
  cases c.link with
  | none => exact heeds_nil c
  | some link =>
    dsimp only
    split_ifs
    · exact heeds_hearTimes c chunk link.listeners
    · exact heeds_nil c

/-- The link is lost.

**Proof sketch.** A client that is closed already loses nothing. Otherwise the signal that the link
is gone ends every wait with the same fault, as the client does. -/
lemma heeds_lose (c : Client) : Heeds [] c c.lose := by
  unfold lose
  split_ifs
  · exact heeds_nil c
  · have hend : ∀ w : Wait,
        w.outcome .gone = if true then some (.error (.closedWhileWaiting w.tag)) else none :=
      fun _ => rfl
    obtain ⟨hwaits, htrace⟩ := Signal.filter_outcome hend c.waits
    obtain ⟨hsignals, hsettled⟩ := ClientTrace.filter_ofWaits c.waits fun w =>
      .error (.closedWhileWaiting w.tag)
    have hall : c.waits.filter (fun _ => true) = c.waits := List.filter_eq_self.2 fun _ _ => rfl
    have hnone : c.waits.filter (fun _ => !true) = [] := List.filter_eq_nil_iff.2 fun _ _ =>
      Bool.false_ne_true
    have hgiven : (ClientTrace.closed :: c.waits.flatMap fun w =>
        ClientTrace.ofWait w (.error (.closedWhileWaiting w.tag))).filterMap signal? = [.gone] :=
      congrArg (Signal.gone :: ·) hsignals
    rw [hall] at htrace
    refine ⟨?_, rfl, rfl⟩
    dsimp only
    rw [hgiven, List.nil_append, Signal.run_singleton]
    exact Prod.ext (hwaits.trans hnone) (htrace.trans hsettled.symm)

/-- The source ends, the sink fails, or a failed write is taken up.

**Proof sketch.** Each of them loses the link, if it is there and not gone, and does nothing
otherwise. -/
lemma heeds_ended (c : Client) :
    Heeds [] c c.sourceEnded ∧ Heeds [] c c.sinkFailed ∧ Heeds [] c c.settle := by
  unfold sourceEnded sinkFailed settle
  cases c.link with
  | none => exact ⟨heeds_nil c, heeds_nil c, heeds_nil c⟩
  | some link =>
    dsimp only
    refine ⟨?_, ?_, ?_⟩
    · split_ifs
      · exact (heeds_lose _).of_alike ⟨rfl, rfl, rfl⟩
      · exact heeds_nil c
    · split_ifs
      · exact (heeds_lose _).of_alike ⟨rfl, rfl, rfl⟩
      · exact heeds_nil c
    · split
      · exact (heeds_lose _).of_alike ⟨rfl, rfl, rfl⟩
      · exact heeds_nil c

/-- Something happens on streams that the client had before.

**Proof sketch.** A chunk is heard by all listeners on these streams, and their end is the loss of
the link. -/
lemma heeds_formerly (c : Client) (i : ℕ) (x : Link.Happening) : Heeds [] c (c.formerly i x) := by
  unfold formerly
  cases c.former[i]? with
  | none => exact heeds_nil c
  | some link =>
    cases x with
    | received chunk =>
      dsimp only
      split_ifs
      · exact heeds_hearTimes c chunk link.listeners
      · exact heeds_nil c
    | sourceEnded | sinkFailed =>
      dsimp only
      split_ifs
      · exact (heeds_lose _).of_alike ⟨rfl, rfl, rfl⟩
      · exact heeds_nil c

/-- Time goes on.

**Proof sketch.** The signal of the clock ends the waits that are due, in the order of their
deadlines, as the client does, and the others stay. -/
lemma heeds_advance (c : Client) (elapsed : Number) :
    Heeds [.reached (c.now + elapsed)] c (c.advance elapsed) := by
  have hend : ∀ w : Wait, w.outcome (.reached (c.now + elapsed)) =
      if w.isDue (c.now + elapsed) then some (.error (.timedOut w.limit w.tag)) else none :=
        fun _ => rfl
  obtain ⟨hwaits, -⟩ := Signal.filter_outcome hend c.waits
  obtain ⟨-, htrace⟩ := Signal.filter_outcome hend (Wait.due (c.now + elapsed) c.waits)
  have hdue : (Wait.due (c.now + elapsed) c.waits).filter (Wait.isDue (c.now + elapsed)) =
      Wait.due (c.now + elapsed) c.waits :=
    List.filter_eq_self.2 fun w hw => (List.mem_filter.1 (List.mem_mergeSort.1 hw)).2
  obtain ⟨hsignals, hsettled⟩ :=
    ClientTrace.filter_ofWaits (Wait.due (c.now + elapsed) c.waits) fun w =>
    .error (.timedOut w.limit w.tag)
  have hnone : (c.advance elapsed).2.filterMap signal? = [] := hsignals
  rw [hdue] at htrace
  refine ⟨?_, rfl, rfl⟩
  rw [hnone, List.append_nil, Signal.run_singleton]
  exact Prod.ext hwaits (htrace.trans hsettled.symm)

/-! ## Calls -/

/-- Sending a command has nothing to do with waits.

**Proof sketch.** A send writes or does nothing; either way the waits, the clock and the state stay,
and no call is settled. -/
lemma heeds_send (c : Client) (command : Command) :
    Heeds [] c ((c.send command).client, (c.send command).trace) := by
  unfold send
  split_ifs
  · cases command.encode with
    | error f => exact heeds_nil c
    | ok bytes =>
      dsimp only
      unfold write
      cases c.link with
      | none => exact heeds_nil c
      | some link =>
        refine Alike.heeds ⟨rfl, rfl, rfl⟩ fun x hx => ?_
        dsimp only at hx
        split_ifs at hx
        · rw [List.mem_singleton.1 hx]
          exact ⟨rfl, rfl⟩
        · cases hx
  · exact heeds_nil c

/-- Sending commands one after the other has nothing to do with waits either.

**Proof sketch.** Induction on the commands, one send after the other. -/
lemma heeds_sendAll (c : Client) (commands : List Command) :
    Heeds [] c ((c.sendAll commands).client, (c.sendAll commands).trace) := by
  induction commands generalizing c with
  | nil => exact heeds_nil c
  | cons command commands ih =>
    have hfirst := heeds_send c command
    rw [sendAll]
    dsimp only
    cases (c.send command).result with
    | error f => exact hfirst
    | ok _ => exact hfirst.append (ih (c.send command).client)

/-- The signals of a query: it begins to wait, unless the client is closed. If its command cannot be
sent, the wait is for nobody and the call fails. -/
def asking (c : Client) (call : ℕ) (command : Command) (tag : EventTag) (wanted : Wanted)
    (limit : Option Number) :
    List Signal :=
  match (c.send command).result with
  | .ok () => [.made (c.newWait (some call) tag wanted limit)]
  | .error f =>
    (if c.isClosed then [] else [.made (c.newWait none tag wanted limit)]) ++ [.refused call f]

/-- The signals that a call gives. -/
def calling (c : Client) (call : ℕ) : Request → List Signal
  | .await tag limit =>
    if c.isClosed then [.refused call (.closedWhileWaiting tag)] else [.made
      (c.newWait (some call) tag .event limit)]
  | .dump limit => c.asking call .requestDump .dumpResult .snapshot limit
  | .readMemory first last limit =>
    if last.lt first then [.refused call (.rangeStart first)]
    else c.asking call (.requestMemory first last) .memoryResult .bytes limit
  | .readStack limit => c.asking call .requestStack .stackResult .bytes limit
  | .send _ | .sendKey _ | .writeMemory .. | .close => []

/-- A query gives the signals of asking: that its wait is made, or that it is refused.

**Proof sketch.** Whether the command can be sent does not depend on the waits. If it can, the
client is open and the wait is made before it is sent; otherwise a wait for nobody is made, if the
client is open, and the call is refused. -/
lemma heeds_query (c : Client) (call : ℕ) (command : Command) (tag : EventTag) (wanted : Wanted)
    (limit : Option Number) :
    Heeds (c.asking call command tag wanted limit) c (c.query call command tag wanted limit) := by
  unfold asking
  cases hresult : (c.send command).result with
  | ok _ =>
    have hopen : ¬ c.isClosed = true := fun hclosed => by
      rw [send, isConnected_of_isClosed hclosed, if_neg Bool.false_ne_true] at hresult
      cases hresult
    have hwaits (waits : List Wait) : (send { c with waits := waits } command).result = .ok () :=
      (result_send_withWaits c waits command).trans hresult
    have hquery : c.query call command tag wanted limit =
        ((send { c with waits := c.waits ++ [c.newWait (some call) tag wanted limit] }
            command).client,
          (send { c with waits := c.waits ++ [c.newWait (some call) tag wanted limit] }
            command).trace) := by
      simp only [query, if_neg hopen, hwaits]
    have hmade : Heeds [.made (c.newWait (some call) tag wanted limit)] c
        ({ c with waits := c.waits ++ [c.newWait (some call) tag wanted limit] }, []) :=
          ⟨rfl, rfl, rfl⟩
    rw [hquery]
    exact hmade.append (heeds_send _ command)
  | error f =>
    have hquery := (query_of_error hresult call call tag wanted limit).1
    rw [hquery]
    cases c.isClosed with
    | true =>
      rw [if_pos rfl, if_pos rfl, List.append_nil]
      exact ⟨rfl, rfl, rfl⟩
    | false => exact ⟨rfl, rfl, rfl⟩

/-- Letting go of the streams behind other work, which is signalled by the trace if the client was
open. -/
lemma Heeds.letGo (h : Heeds [] c r) :
    Heeds [] c ({ r.1.lose.1 with isBound := false }, r.2 ++ r.1.lose.2) :=
  ⟨(h.append (heeds_lose r.1)).waits, (h.append (heeds_lose r.1)).timeout,
    (h.append (heeds_lose r.1)).now⟩

/-- Closing gives no signal of its own: the stop command and the end of the sink have nothing to do
with waits, and the loss of the link tells of itself.

**Proof sketch.** Sending the stop command, ending the sink and letting the link go are done one
after the other, and each gives the signals that it should. -/
lemma heeds_close (c : Client) : Heeds [] c c.close := by
  unfold close
  split_ifs
  · dsimp only
    cases (c.send .stop).client.link with
    | none => exact (heeds_send c .stop).letGo
    | some link =>
      have hfinish : Heeds [] (c.send .stop).client
          ({ (c.send .stop).client with link := some { link with sink := link.sink.finish.1 } },
            if link.sink.finish.2 then [.ended] else []) := by
        refine Alike.heeds ⟨rfl, rfl, rfl⟩ fun x hx => ?_
        split_ifs at hx
        · rw [List.mem_singleton.1 hx]
          exact ⟨rfl, rfl⟩
        · cases hx
      exact ((heeds_send c .stop).append hfinish).letGo
  · exact (heeds_nil c).letGo

/-- **A call.**

**Proof sketch.** One case for each request. -/
lemma heeds_call (c : Client) (id : ℕ) (request : Request) :
    Heeds (c.calling id request) c ((c.call id request).client, (c.call id request).trace) := by
  cases request with
  | send command => exact heeds_send c command
  | sendKey name =>
    rw [call, sendKey]
    cases Key.resolve? name with
    | some key => exact heeds_send c (.inputKey key)
    | none => exact heeds_nil c
  | writeMemory address bytes =>
    rw [call, writeMemory]
    split_ifs
    · exact heeds_nil c
    · exact heeds_sendAll c _
  | await tag limit =>
    rw [call, await, calling]
    split_ifs <;> exact ⟨rfl, rfl, rfl⟩
  | dump limit => exact heeds_query c id _ _ _ limit
  | readMemory first last limit =>
    rw [call, readMemory, calling]
    split_ifs
    · exact ⟨rfl, rfl, rfl⟩
    · exact heeds_query c id _ _ _ limit
  | readStack limit => exact heeds_query c id _ _ _ limit
  | close => exact heeds_close c

/-! ## Happenings -/

variable {x : Happening} {xs ys : List Happening}

/-- The signals with which a happening begins. -/
def opening (c : Client) : Happening → List Signal
  | .called call request => c.calling call request
  | .elapsed time => [.reached (c.now + time)]
  | .bound _ | .rebound | .received _ | .sourceEnded | .sinkFailed | .formerly .. => []

/-- The signals of a happening: those with which it begins, and those that the client gives. -/
def signals (c : Client) (x : Happening) : List Signal :=
  c.opening x ++ (c.happen x).trace.filterMap signal?

/-- The signals of happenings, one after the other. -/
def signalsIn (c : Client) : List Happening → List Signal
  | [] => []
  | x :: xs => c.signals x ++ (c.happen x).client.signalsIn xs

/-- Whatever happens to a client, its waits heed the signals of that. -/
lemma heeds_respond (c : Client) (x : Happening) :
    Heeds (c.opening x) c ((c.respond x).client, (c.respond x).trace) := by
  cases x with
  | bound failure | rebound => exact ⟨rfl, rfl, rfl⟩
  | received chunk => exact heeds_receive c chunk
  | sourceEnded => exact (heeds_ended c).1
  | sinkFailed => exact (heeds_ended c).2.1
  | formerly i x => exact heeds_formerly c i x
  | elapsed time => exact heeds_advance c time
  | called id request => exact heeds_call c id request

/-- **One happening**: the waits of the client, and the calls that it settles, are those that the
signals give. -/
theorem heeds_happen (c : Client) (x : Happening) :
    Heeds (c.opening x) c ((c.happen x).client, (c.happen x).trace) :=
  (heeds_respond c x).append (heeds_ended (c.respond x).client).2.2

/-- **A run**: the waits of the client, and the calls that it settles, are those that the signals
give. -/
theorem run_signalsIn (c : Client) (xs : List Happening) :
    Signal.run c.waits (c.signalsIn xs) = ((c.run xs).1.waits, (c.run xs).2.filter isSettled) := by
  induction xs generalizing c with
  | nil => rfl
  | cons x xs ih =>
    have hfirst : Signal.run c.waits (c.signals x) = _ := (heeds_happen c x).waits
    rw [signalsIn, Signal.run_append, hfirst, ih]
    simp only [run, List.filter_append]

end Client

end DebugWire
