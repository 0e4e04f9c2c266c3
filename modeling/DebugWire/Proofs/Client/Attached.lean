import DebugWire.Client.Basic
import DebugWire.Proofs.Wire.CommandStream
import DebugWire.Proofs.Wire.EventStream

set_option relaxedAutoImplicit false
set_option autoImplicit false

/-!
# Clients that are attached once

A client that was bound once, to streams that do not fail, hears each chunk of one event once while
it is open. What is asked of it, and time, make it write commands and end waits, but let it hear
nothing.

## Main definitions

* `DebugWire.Client.Attached` — a client that was bound once.
* `DebugWire.Client.tally` — how often a call waits or was settled.
* `DebugWire.Client.Proceeds` — what a client may do without hearing anything, as one of its calls
  sees it.

## Main results

* `DebugWire.Client.Attached.happen_received` — a chunk of one event.
* `DebugWire.Client.Attached.proceeds_called`, `DebugWire.Client.Attached.proceeds_elapsed`,
  `DebugWire.Client.Attached.proceeds_sourceEnded` — the other happenings.
-/

namespace DebugWire.Client

/-! ## Attached clients -/

/-- A client is *attached*: it was bound once, to streams that do not fail, and no bytes wait. While
it is open, commands can be sent and each chunk is heard once. When it is closed, no chunk is heard
and there are no waits. -/
structure Attached (c : Client) : Prop where
  /-- No bytes wait. -/
  reader : c.reader = .empty
  /-- While it is open, commands can be sent and each chunk is heard once. -/
  isOpen : c.isClosed = false → c.isBound = true ∧ c.link = some ⟨1, true, .fresh none⟩
  /-- When it is closed, no chunk is heard and there are no waits. -/
  isOver : c.isClosed = true → c.waits = [] ∧ ∃ isOpen sink, c.link = some ⟨0, isOpen, sink⟩ ∧
    (sink = .fresh none ∨ sink = ⟨.ended, none⟩)

variable {c : Client}

/-- A client that was never bound, once it is bound to new streams, is attached. -/
lemma attached_bind_unbound (timeout : Option Number) :
    ((unbound timeout).bind (.fresh none)).Attached :=
  ⟨rfl, fun _ => ⟨rfl, rfl⟩, nofun⟩

/-- An attached client has no failed write to take up. -/
lemma Attached.settle_eq (h : Attached c) : c.settle = (c, []) := by
  unfold settle
  cases hc : c.isClosed with
  | false =>
    rw [(h.isOpen hc).2]
    rfl
  | true =>
    obtain ⟨-, isOpen, sink, hl, rfl | rfl⟩ := h.isOver hc <;> rw [hl] <;> rfl

/-- What happens to a client that is attached afterwards is what it responds. -/
lemma happen_of_attached {x : Happening} (h : Attached (c.respond x).client) :
    (c.happen x).client = (c.respond x).client ∧ (c.happen x).trace = (c.respond x).trace := by
  simp only [happen, h.settle_eq, List.append_nil, and_self]

/-- Other waits leave an open client attached, as only a closed one has to be without waits. -/
lemma Attached.withWaits (h : Attached c) (hc : c.isClosed = false) (waits : List Wait) :
    Attached { c with waits := waits } :=
  ⟨h.reader, h.isOpen, fun hn => absurd (hc.symm.trans hn) nofun⟩

/-- An open client that is attached is connected: it has a link, and the link has not been closed.
-/
lemma Attached.isConnected (h : Attached c) (hc : c.isClosed = false) : c.isConnected = true := by
  rw [Client.isConnected, hc, (h.isOpen hc).1]
  rfl

/-- A closed client is not connected, whatever link it may still hold. -/
lemma isConnected_of_isClosed (hc : c.isClosed = true) : c.isConnected = false := by
  rw [Client.isConnected, hc, Bool.not_true, Bool.and_false]

/-- Sending a command leaves an attached client as it is, and writes the frame of the command,
unless that is refused.

**Proof sketch.** A closed client has no link to write on. An open one has the sink of an attached
link, on which each write succeeds, so only the encoding can fail. -/
lemma Attached.send_cases (h : Attached c) (command : Command) :
    (∃ bytes, c.isClosed = false ∧ command.encode = .ok bytes ∧
      c.send command = ⟨c, [.sent bytes], .ok ()⟩) ∨
    (∃ f, c.send command = ⟨c, [], .error f⟩) := by
  cases hc : c.isClosed with
  | true => exact .inr ⟨_, by rw [send, isConnected_of_isClosed hc, if_neg nofun]⟩
  | false =>
    rw [send, h.isConnected hc, if_pos rfl]
    cases he : command.encode with
    | error f => exact .inr ⟨f, rfl⟩
    | ok bytes =>
      refine .inl ⟨bytes, rfl, rfl, ?_⟩
      have hl := (h.isOpen hc).2
      obtain ⟨timeout, reader, link, former, isBound, isClosed, waits, now⟩ := c
      obtain rfl : link = some ⟨1, true, .fresh none⟩ := hl
      rfl

/-! ## Calls -/

/-- Whether a call was settled. -/
def settles (id : ℕ) : ClientTrace → Bool
  | .settled call _ => call = id
  | _ => false

/-- How often a call waits or was settled. -/
def tally (id : ℕ) (c : Client) (trace : List ClientTrace) : ℕ :=
  c.waits.countP (fun w => w.call = some id) + trace.countP (settles id)

/-- Each wait that ends settles its call.

**Proof sketch.** Induction on the waits. Each lets out one entry, which settles the call `id`
exactly if the wait is of that call. -/
lemma countP_ofWaits (id : ℕ) (waits : List Wait) (f : Wait → Except Fault Answer) :
    (waits.flatMap fun w => ClientTrace.ofWait w (f w)).countP (settles id) =
      waits.countP fun w => w.call = some id := by
  induction waits with
  | nil => rfl
  | cons w waits ih =>
    rw [List.flatMap_cons, List.countP_append, ih, List.countP_cons, Nat.add_comm]
    congr 1
    unfold ClientTrace.ofWait
    cases hw : w.call with
    | none => simp
    | some call => simp [settles]

/-- When some waits end and the others go on, a call is settled as often as it waits less. -/
lemma tally_ofWaits (id : ℕ) (c : Client) (ends : Wait → Bool) (f : Wait → Except Fault Answer) :
    tally id { c with waits := c.waits.filter fun w => !ends w }
      ((c.waits.filter ends).flatMap fun w => ClientTrace.ofWait w (f w)) =
      c.waits.countP fun w => w.call = some id := by
  rw [tally, countP_ofWaits, Nat.add_comm, ← List.countP_eq_countP_filter_add]

/-- Doing one thing after the other adds nothing to a tally if neither does. -/
lemma tally_append_le {id : ℕ} {c c' : Client} {trace trace' : List ClientTrace}
    (h : tally id c' trace' ≤ c.waits.countP fun w => w.call = some id) :
    tally id c' (trace ++ trace') ≤ tally id c trace := by
  rw [tally, List.countP_append]
  simp only [tally] at h ⊢
  omega

/-! ## Proceeding -/

/-- What an attached client may do without hearing anything, as the call `id` sees it: it stays
attached, writes frames of commands, adds no wait of that call, and settles that call with no
answer. -/
structure Proceeds (id : ℕ) (c : Client) (result : Client × List ClientTrace) : Prop where
  /-- It is attached. -/
  attached : Attached result.1
  /-- It is open only if it was before. -/
  isOpen : result.1.isClosed = false → c.isClosed = false
  /-- It writes frames of commands. -/
  sent : ∀ bytes, .sent bytes ∈ result.2 → ∃ command : Command, command.encode = .ok bytes
  /-- It hears nothing. -/
  events : result.2.filterMap ClientTrace.event? = []
  /-- It adds no wait of the call. -/
  waits : ∀ w ∈ result.1.waits, w.call = some id → w ∈ c.waits
  /-- It settles the call with no answer. -/
  settled : ∀ a, .settled id (.ok a) ∉ result.2
  /-- It settles the call as often as it ends a wait of it. -/
  tally : tally id result.1 result.2 ≤ c.waits.countP fun w => w.call = some id

variable {id : ℕ}

/-- Doing nothing keeps an attached client attached, lets nothing out and settles no call. -/
lemma Attached.proceeds_nil (h : Attached c) : Proceeds id c (c, []) :=
  ⟨h, fun hc => hc, fun _ hb => absurd hb List.not_mem_nil, rfl, fun _ hw _ => hw,
    fun _ => List.not_mem_nil, le_rfl⟩

/-- Doing one thing after the other: the client stays attached, the traces are put one behind the
other, and what settles the call is counted in both. -/
lemma Proceeds.append {r r' : Client × List ClientTrace} (h : Proceeds id c r)
    (h' : Proceeds id r.1 r') :
    Proceeds id c (r'.1, r.2 ++ r'.2) where
  attached := h'.attached
  isOpen hc := h.isOpen (h'.isOpen hc)
  sent bytes hb := (List.mem_append.1 hb).elim (h.sent bytes) (h'.sent bytes)
  events := by rw [List.filterMap_append, h.events, h'.events]; rfl
  waits w hw hid := h.waits w (h'.waits w hw hid) hid
  settled a ha := (List.mem_append.1 ha).elim (h.settled a) (h'.settled a)
  tally := (tally_append_le h'.tally).trans h.tally

/-- Writing the frame of a command that can be encoded, which settles nothing. -/
lemma Attached.proceeds_sent (h : Attached c) {command : Command} {bytes : Bytes}
    (he : command.encode = .ok bytes) : Proceeds id c (c, [.sent bytes]) where
  attached := h
  isOpen hc := hc
  sent bytes' hb := by
    obtain rfl := ClientTrace.sent.inj (List.mem_singleton.1 hb)
    exact ⟨command, he⟩
  events := rfl
  waits _ hw _ := hw
  settled _ ha := nomatch List.mem_singleton.1 ha
  tally := le_rfl

/-- Settling another call with a fault is nothing that the call `id` notices. -/
lemma Attached.proceeds_refused (h : Attached c) {id' : ℕ} (hid : id' ≠ id) (f : Fault) :
    Proceeds id c (c, [.settled id' (.error f)]) where
  attached := h
  isOpen hc := hc
  sent _ hb := nomatch List.mem_singleton.1 hb
  events := rfl
  waits _ hw _ := hw
  settled _ ha := nomatch List.mem_singleton.1 ha
  tally := by simp [Client.tally, settles, hid]

/-- Adding a wait of another call to an open client leaves the number of waits of the call `id` as
it was. -/
lemma Attached.proceeds_wait (h : Attached c) (hc : c.isClosed = false) {w : Wait}
    (hw : w.call ≠ some id) :
    Proceeds id c ({ c with waits := c.waits ++ [w] }, []) where
  attached := h.withWaits hc _
  isOpen _ := hc
  sent _ hb := absurd hb List.not_mem_nil
  events := rfl
  waits _ hv hid := (List.mem_append.1 hv).resolve_right fun hv =>
    hw (List.mem_singleton.1 hv ▸ hid)
  settled _ := List.not_mem_nil
  tally := by simp [Client.tally, hw]

/-- Sending a command writes its frame if it is accepted; refused or not, the client is the same
afterwards. -/
lemma Attached.proceeds_send (h : Attached c) (id : ℕ) (command : Command) :
    Proceeds id c ((c.send command).client, (c.send command).trace) ∧
      (c.send command).client = c := by
  rcases h.send_cases command with ⟨bytes, -, he, hs⟩ | ⟨f, hs⟩ <;> rw [hs]
  · exact ⟨h.proceeds_sent he, rfl⟩
  · exact ⟨h.proceeds_nil, rfl⟩

/-- Sending commands, up to the first that is refused.

**Proof sketch.** Induction on the commands. Sending one leaves the client as it is, so the rest is
sent by the same client, unless the first has been refused. -/
lemma Attached.proceeds_sendAll (h : Attached c) (commands : List Command) :
    Proceeds id c ((c.sendAll commands).client, (c.sendAll commands).trace) := by
  induction commands with
  | nil => exact h.proceeds_nil
  | cons command commands ih =>
    obtain ⟨hp, hc⟩ := h.proceeds_send id command
    rw [sendAll]
    dsimp only
    cases hr : (c.send command).result with
    | error f => exact hp
    | ok _ =>
      rw [hc] at hp ⊢
      exact hp.append ih

/-- Waits that end with a fault settle no call with an answer. -/
lemma settled_notMem_ofWaits {waits : List Wait} {f : Wait → Fault} (a : Answer) :
    .settled id (.ok a) ∉ waits.flatMap fun w => ClientTrace.ofWait w (.error (f w)) := by
  intro ha
  obtain ⟨w, -, hw⟩ := List.mem_flatMap.1 ha
  unfold ClientTrace.ofWait at hw
  split at hw
  · cases List.mem_singleton.1 hw
  · cases hw

/-- Waits that end are neither writes nor events.

**Proof sketch.** A wait that ends settles its promise, or does nothing if it has none. -/
lemma filterMap_ofWaits {waits : List Wait} {f : Wait → Except Fault Answer} :
    (∀ bytes, .sent bytes ∉ waits.flatMap fun w => ClientTrace.ofWait w (f w)) ∧
      (waits.flatMap fun w => ClientTrace.ofWait w (f w)).filterMap ClientTrace.event? = [] := by
  have hsettled : ∀ t ∈ waits.flatMap fun w => ClientTrace.ofWait w (f w), ∃ call result,
      t = .settled call result := by
    intro t ht
    obtain ⟨w, -, hw⟩ := List.mem_flatMap.1 ht
    unfold ClientTrace.ofWait at hw
    split at hw
    · exact ⟨_, _, List.mem_singleton.1 hw⟩
    · cases hw
  refine ⟨fun bytes hb => ?_, List.filterMap_eq_nil_iff.2 fun t ht => ?_⟩
  · obtain ⟨_, _, h⟩ := hsettled _ hb
    cases h
  · obtain ⟨_, _, rfl⟩ := hsettled t ht
    rfl

/-- Losing the link writes nothing; all that it lets out is that it is closed and how the waits end.
-/
lemma sent_notMem_lose (c : Client) (bytes : Bytes) : .sent bytes ∉ c.lose.2 := by
  intro hb
  unfold lose at hb
  split_ifs at hb
  · cases hb
  · exact filterMap_ofWaits.1 bytes ((List.mem_cons.1 hb).resolve_left nofun)

/-- Losing the link.

**Proof sketch.** Losing the link does nothing to a closed client. Otherwise it closes and ends all
waits, and the promises of those are settled once each. -/
lemma proceeds_lose {c' : Client} (hc' : c'.isClosed = c.isClosed) (hw' : c'.waits = c.waits)
    (ha : Attached c'.lose.1) : Proceeds id c c'.lose where
  attached := ha
  isOpen hc := by
    rw [← hc']
    unfold lose at hc
    split_ifs at hc
    exact hc
  sent bytes hb := absurd hb (sent_notMem_lose c' bytes)
  events := by
    unfold lose
    split_ifs
    · rfl
    · exact filterMap_ofWaits.2
  waits w hw hid := by
    unfold lose at hw
    split_ifs at hw
    · rw [← hw']; exact hw
    · cases hw
  settled a hs := by
    unfold lose at hs
    split_ifs at hs
    · cases hs
    · exact settled_notMem_ofWaits a ((List.mem_cons.1 hs).resolve_left nofun)
  tally := by
    unfold lose
    rw [← hw']
    split_ifs
    · exact le_rfl
    · rw [Client.tally, List.countP_cons_of_neg (by exact nofun), countP_ofWaits, List.countP_nil,
        Nat.zero_add]

/-- A client that is bound to streams which do not fail is attached when it has lost them. -/
lemma attached_lose (hr : c.reader = .empty) (hb : c.isBound = true) (hc : c.isClosed = false)
    {isOpen : Bool} {sink : Sink} (hl : c.link = some ⟨1, isOpen, sink⟩)
    (hs : sink = .fresh none ∨ sink = ⟨.ended, none⟩) :
    Attached c.lose.1 := by
  obtain ⟨timeout, reader, link, former, isBound, isClosed, waits, now⟩ := c
  obtain rfl : link = some ⟨1, isOpen, sink⟩ := hl
  obtain rfl : isBound = true := hb
  obtain rfl : isClosed = false := hc
  exact ⟨hr, nofun, fun _ => ⟨rfl, isOpen, sink, rfl, hs⟩⟩

/-- A client that is closed has nothing to lose. -/
lemma lose_of_isClosed (hc : c.isClosed = true) : c.lose = (c, []) := if_pos hc

/-- A client that has lost its link is closed. -/
lemma isClosed_lose (c : Client) : c.lose.1.isClosed = true := by
  unfold lose
  split_ifs with hc
  · exact hc
  · rfl

/-! ## Chunks -/

/-- A chunk of one event that comes in is heard while the client is open.

**Proof sketch.** The reader of an attached client is empty, so a chunk of one event is drained as
that event. A closed client either has a source that is gone or does not listen to it. -/
lemma Attached.receive_eq (h : Attached c) {chunk : Bytes} {ev : Event}
    (hev : Event.format.ofChunk? chunk = some ev) :
    c.receive chunk = if c.isClosed then (c, []) else c.hear ev := by
  have hd : (c.reader.push chunk).drain Event.format = ([.value ev], .empty) := by
    rw [h.reader]
    exact Format.drain_of_ofChunk? hev
  unfold receive
  cases hc : c.isClosed with
  | true =>
    obtain ⟨-, isOpen, sink, hl, -⟩ := h.isOver hc
    rw [hl]
    cases isOpen <;> rfl
  | false =>
    have hr : ({ c with reader := .empty } : Client) = c := by rw [← h.reader]
    rw [(h.isOpen hc).2]
    simp only [if_true, hearTimes, hearChunk, hd, hr, takeItems, List.append_nil,
      Bool.false_eq_true, if_false]

/-- Hearing an event leaves an open client attached: it ends some waits and tells the listeners. -/
lemma Attached.hear (h : Attached c) (hc : c.isClosed = false) (ev : Event) :
    Attached (c.hear ev).1 :=
  h.withWaits hc _

/-- **A chunk of one event** is heard by an open client and not by a closed one.

**Proof sketch.** A chunk that is one event is heard by an open client and dropped by a closed one,
and either way the client stays attached. So there is no failed write to be taken up afterwards. -/
theorem Attached.happen_received (h : Attached c) {chunk : Bytes} {ev : Event}
    (hev : Event.format.ofChunk? chunk = some ev) :
    Attached (c.happen (.received chunk)).client ∧
      ((c.happen (.received chunk)).client, (c.happen (.received chunk)).trace) =
        if c.isClosed then (c, []) else c.hear ev := by
  have hr := h.receive_eq hev
  have ha : Attached (c.receive chunk).1 := by
    rw [hr]
    cases hc : c.isClosed with
    | true => exact h
    | false => exact h.hear hc ev
  obtain ⟨hclient, htrace⟩ := happen_of_attached (x := .received chunk) ha
  rw [hclient, htrace, ← hr]
  exact ⟨ha, rfl⟩

/-! ## Other happenings -/

/-- The end of the source, before a failed write is taken up.

**Proof sketch.** The end of the source is the loss of the link, unless the client is closed, when
there is no wait that could end. -/
lemma Attached.proceeds_end (h : Attached c) (id : ℕ) : Proceeds id c c.sourceEnded := by
  unfold sourceEnded
  rcases Bool.eq_false_or_eq_true c.isClosed with hc | hc
  · obtain ⟨hw, isOpen, sink, hl, hs⟩ := h.isOver hc
    rw [hl]
    cases isOpen with
    | false => exact h.proceeds_nil
    | true =>
      have ha : Attached (lose { c with link := some ⟨0, false, sink⟩ }).1 := by
        rw [lose_of_isClosed (c := { c with link := some ⟨0, false, sink⟩ }) hc]
        exact ⟨h.reader, fun hn => absurd (hc.symm.trans hn) nofun,
          fun _ => ⟨hw, false, sink, rfl, hs⟩⟩
      exact proceeds_lose rfl rfl ha
  · obtain ⟨hb, hl⟩ := h.isOpen hc
    rw [hl]
    exact proceeds_lose rfl rfl (attached_lose h.reader hb hc rfl (.inl rfl))

/-- **The end of the source** closes the client, which writes nothing then.

**Proof sketch.** An attached client has nothing to take up behind the end of its source. If it is
open then it loses its link, which writes nothing, and otherwise it does not listen any more. -/
theorem Attached.proceeds_sourceEnded (h : Attached c) (id : ℕ) :
    Proceeds id c ((c.happen .sourceEnded).client, (c.happen .sourceEnded).trace) ∧
      ∀ bytes, .sent bytes ∉ (c.happen .sourceEnded).trace := by
  obtain ⟨hclient, htrace⟩ := happen_of_attached (x := .sourceEnded) (h.proceeds_end id).attached
  rw [hclient, htrace]
  refine ⟨h.proceeds_end id, fun bytes hb => ?_⟩
  change .sent bytes ∈ c.sourceEnded.2 at hb
  unfold sourceEnded at hb
  split at hb
  · cases hb
  · split_ifs at hb
    · exact sent_notMem_lose _ bytes hb
    · cases hb

/-- Time leaves a client attached: the clock goes on, and waits that come to their end are settled.
-/
lemma Attached.advance (h : Attached c) (elapsed : Number) : Attached (c.advance elapsed).1 := by
  refine ⟨h.reader, h.isOpen, fun hc => ⟨?_, (h.isOver hc).2⟩⟩
  show c.waits.filter _ = []
  rw [(h.isOver hc).1]
  rfl

/-- **Time.**

**Proof sketch.** The waits that are due end, and the others stay. A call has one wait at most, so
its promise is settled or still waits: the tally is divided between the two. -/
theorem Attached.proceeds_elapsed (h : Attached c) (id : ℕ) (elapsed : Number) :
    Proceeds id c ((c.happen (.elapsed elapsed)).client, (c.happen (.elapsed elapsed)).trace) := by
  have hp : Proceeds id c (c.advance elapsed) :=
    { attached := h.advance elapsed
      isOpen := fun hc => hc
      sent := fun bytes hb => absurd hb (filterMap_ofWaits.1 bytes)
      events := filterMap_ofWaits.2
      waits := fun w hw _ => (List.mem_filter.1 hw).1
      settled := settled_notMem_ofWaits
      tally := by
        have hdue : ((Wait.due (c.now + elapsed) c.waits).flatMap fun w =>
            ClientTrace.ofWait w (.error (.timedOut w.limit w.tag))).countP (settles id) =
            (c.waits.filter (Wait.isDue (c.now + elapsed))).countP fun w => w.call = some id := by
          rw [countP_ofWaits]
          exact (List.mergeSort_perm _ _).countP_eq _
        refine le_of_eq ?_
        rw [Client.tally, Client.advance]
        dsimp only
        rw [hdue, Nat.add_comm, ← List.countP_eq_countP_filter_add] }
  obtain ⟨hclient, htrace⟩ := happen_of_attached (x := .elapsed elapsed) hp.attached
  rw [hclient, htrace]
  exact hp

/-- A query that is accepted writes the frame of its command and adds a wait; one that is refused
settles its call with a fault, and leaves a wait for nobody.

**Proof sketch.** A closed client makes no wait and cannot send. An open one makes the wait first,
and then sends or not as `send_cases` says. -/
lemma Attached.query_cases (h : Attached c) (id' : ℕ) (command : Command) (tag : EventTag)
    (wanted : Wanted) (limit : Option Number) :
    (∃ bytes, c.isClosed = false ∧ command.encode = .ok bytes ∧
      c.query id' command tag wanted limit =
      ({ c with waits := c.waits ++ [c.newWait (some id') tag wanted limit] }, [.sent bytes])) ∨
    (∃ f, c.isClosed = false ∧ c.query id' command tag wanted limit =
      ({ c with waits := c.waits ++ [c.newWait none tag wanted limit] },
        [.settled id' (.error f)])) ∨
    (∃ f, c.isClosed = true ∧ c.query id' command tag wanted limit =
      (c, [.settled id' (.error f)])) := by
  rcases Bool.eq_false_or_eq_true c.isClosed with hc | hc
  · obtain ⟨f, hs⟩ := (h.send_cases command).resolve_left fun ⟨_, hn, _⟩ =>
      absurd (hc.symm.trans hn) nofun
    exact .inr (.inr ⟨f, hc, by simp only [query, if_pos hc, hs]⟩)
  · have hn : ¬ c.isClosed = true := Bool.eq_false_iff.1 hc
    have ha := h.withWaits hc (c.waits ++ [c.newWait (some id') tag wanted limit])
    rcases ha.send_cases command with ⟨bytes, -, he, hs⟩ | ⟨f, hs⟩
    · exact .inl ⟨bytes, hc, he, by simp only [query, if_neg hn, hs]⟩
    · exact .inr (.inl ⟨f, hc, by simp only [query, if_neg hn, hs]⟩)

/-- Asking the device something for another call.

**Proof sketch.** By the three cases of `query_cases`. The wait and the promise, if there are any,
belong to the other call. -/
lemma Attached.proceeds_query (h : Attached c) {id' : ℕ} (hid : id' ≠ id) (command : Command)
    (tag : EventTag) (wanted : Wanted) (limit : Option Number) :
    Proceeds id c (c.query id' command tag wanted limit) := by
  rcases h.query_cases id' command tag wanted limit with
    ⟨bytes, hc, he, hq⟩ | ⟨f, hc, hq⟩ | ⟨f, hc, hq⟩ <;>
    rw [hq]
  · have hw : Proceeds id c
        ({ c with waits := c.waits ++ [c.newWait (some id') tag wanted limit] }, []) :=
      h.proceeds_wait hc fun he => hid (Option.some.inj he)
    exact hw.append (hw.attached.proceeds_sent he)
  · have hw :
        Proceeds id c ({ c with waits := c.waits ++ [c.newWait none tag wanted limit] }, []) :=
      h.proceeds_wait hc nofun
    exact hw.append (hw.attached.proceeds_refused hid f)
  · exact h.proceeds_refused hid f

/-- Letting go of streams that are lost changes nothing that a closed client uses. -/
lemma Proceeds.unbound {r : Client × List ClientTrace} (h : Proceeds id c r)
    (hc : r.1.isClosed = true) :
    Proceeds id c ({ r.1 with isBound := false }, r.2) :=
  { h with attached :=
    ⟨h.attached.reader, fun hn => absurd (hc.symm.trans hn) nofun, h.attached.isOver⟩ }

/-- Closing an open client writes the frame of the command to stop, ends the sink and loses the
streams. -/
lemma Attached.close_eq (h : Attached c) (hc : c.isClosed = false) :
    c.close =
      ({ (lose { c with link := some ⟨1, true, ⟨.ended, none⟩⟩ }).1 with isBound := false },
        [.sent [CommandTag.stop.byte], .ended] ++
          (lose { c with link := some ⟨1, true, ⟨.ended, none⟩⟩ }).2) := by
  obtain ⟨hb, hl⟩ := h.isOpen hc
  obtain ⟨timeout, reader, link, former, isBound, isClosed, waits, now⟩ := c
  obtain rfl : link = some ⟨1, true, .fresh none⟩ := hl
  obtain rfl : isBound = true := hb
  obtain rfl : isClosed = false := hc
  rfl

/-- Closing.

**Proof sketch.** A closed client has nothing to lose. An open one writes the stop command, ends its
sink and loses its link. -/
lemma Attached.proceeds_close (h : Attached c) : Proceeds id c c.close := by
  rcases Bool.eq_false_or_eq_true c.isClosed with hc | hc
  · have hclose : c.close = ({ c.lose.1 with isBound := false }, [] ++ c.lose.2) := by
      simp only [close, isConnected_of_isClosed hc, Bool.false_eq_true, if_false]
    rw [hclose, lose_of_isClosed hc]
    exact h.proceeds_nil.unbound hc
  · have hstop : Command.stop.encode = .ok [CommandTag.stop.byte] := rfl
    have hsent : Proceeds id c (c, [.sent [CommandTag.stop.byte], .ended]) :=
      { h.proceeds_sent hstop with
        sent := fun bytes hb => by
          obtain rfl := ClientTrace.sent.inj ((List.mem_cons.1 hb).resolve_right (by simp))
          exact ⟨.stop, hstop⟩
        settled := fun _ => by simp
        tally := le_rfl }
    have hlose : Proceeds id c (lose { c with link := some ⟨1, true, ⟨.ended, none⟩⟩ }) :=
      proceeds_lose rfl rfl (attached_lose h.reader (h.isOpen hc).1 hc rfl (.inr rfl))
    rw [h.close_eq hc]
    exact hsent.append (hlose.unbound (isClosed_lose _))

/-- What is asked of the client by another call, before a failed write is taken up.

**Proof sketch.** One case for each request, with the lemma about the part of the client that it
uses. -/
lemma Attached.proceeds_call (h : Attached c) {id' : ℕ} (hid : id' ≠ id) (request : Request) :
    Proceeds id c ((c.call id' request).client, (c.call id' request).trace) := by
  cases request with
  | send command => exact (h.proceeds_send id command).1
  | sendKey name =>
    simp only [call, sendKey]
    split
    · exact (h.proceeds_send id _).1
    · exact h.proceeds_nil
  | writeMemory address bytes =>
    simp only [call, writeMemory]
    split_ifs
    · exact h.proceeds_nil
    · exact h.proceeds_sendAll _
  | await tag limit =>
    simp only [call, Client.await]
    split_ifs with hc
    · exact h.proceeds_refused hid _
    · exact h.proceeds_wait (Bool.eq_false_iff.2 hc) fun he => hid (Option.some.inj he)
  | dump limit => exact h.proceeds_query hid _ _ _ _
  | readMemory first last limit =>
    simp only [call, readMemory]
    split_ifs
    · exact h.proceeds_refused hid _
    · exact h.proceeds_query hid _ _ _ _
  | readStack limit => exact h.proceeds_query hid _ _ _ _
  | close => exact h.proceeds_close

/-- An attached client that is asked something has no failed write to take up. -/
lemma Attached.happen_called (h : Attached c) (id : ℕ) (request : Request) :
    (c.happen (.called id request)).client = (c.call id request).client ∧
      (c.happen (.called id request)).trace = (c.call id request).trace :=
  happen_of_attached (x :=
    .called id request) (h.proceeds_call (Nat.ne_add_one id) request).attached

/-- **What is asked** of the client by another call. -/
theorem Attached.proceeds_called (h : Attached c) {id' : ℕ} (hid : id' ≠ id) (request : Request) :
    Proceeds id c ((c.happen (.called id' request)).client,
      (c.happen (.called id' request)).trace) := by
  rw [(h.happen_called id' request).1, (h.happen_called id' request).2]
  exact h.proceeds_call hid request

end DebugWire.Client
