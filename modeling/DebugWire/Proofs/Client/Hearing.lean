import DebugWire.Proofs.Client.Attached
import DebugWire.Proofs.Wire.Canonical
import DebugWire.Proofs.Wire.Fragmentation

set_option relaxedAutoImplicit false
set_option autoImplicit false

/-!
# What a client hears

A client decodes the chunks that come in on the streams it is bound to. On each link it decodes each
chunk once, up to the moment in which it tells that the link is gone, and none behind that. Its
reader is not emptied between two links, however: the beginning of an event that an old link has
left is still there when a new link is bound. So the client decodes what a new reader would exactly
if the chunks of all earlier links have come to the end of an event.

A client that is bound to new streams without having lost the old ones goes on hearing those, by the
same reader. What it decodes is still what the reader gives for all chunks that it hears. But it is
what has come in on the new link only if nothing comes in on old streams to which it listens.

## Main definitions

* `DebugWire.ClientTrace.decoded` — the events and the reports of bytes that are none, in a trace.
* `DebugWire.Client.heardIn` — the chunks that a client hears, as often as it hears them.
* `DebugWire.Client.openChunks` — the chunks that come in until the client tells that its link is
  gone.
* `DebugWire.Client.StaysOn` — a happening that neither binds the client nor is heard on streams it
  had before.
* `DebugWire.Client.Tuned` — a client that hears each chunk once while it is open, and none
  otherwise.
* `DebugWire.Client.Decodes`, `DebugWire.Client.Works` — what a client does with the chunks that it
  hears.

## Main results

* `DebugWire.Client.works_happen`, `DebugWire.Client.decodes_happen` — one happening.
* `DebugWire.Client.decodes_run` — a run.
* `DebugWire.Client.formerEars_happen` — when the client hears nothing on streams that it had
  before.
* `DebugWire.Client.decoded_run_bound` — what is decoded between one attachment and the next.
-/

namespace DebugWire

/-! ## Traces -/

namespace ClientTrace

/-- What a client lets out when it takes up an item. -/
def ofItem : Item Event → ClientTrace
  | .value e => event e
  | .malformed cause => malformed (.malformedEvent cause.message)

/-- Only an item that has a value is shown as the event of that value. -/
lemma eq_value_of_ofItem {item : Item Event} {e : Event} (h : ofItem item = event e) :
    item = .value e := by
  cases item with
  | value e' => exact congrArg _ (event.inj h)
  | malformed cause => cases h

/-- Whether something was decoded: an event, or bytes that are none. -/
def isDecoded : ClientTrace → Bool
  | event _ | malformed _ => true
  | sent _ | ended | closed | settled .. => false

/-- Whether the client tells that its link is gone. -/
def isClosing : ClientTrace → Bool
  | closed => true
  | sent _ | ended | event _ | malformed _ | settled .. => false

/-- What was decoded, in order. -/
def decoded (trace : List ClientTrace) : List ClientTrace := trace.filter isDecoded

/-- What is decoded in two traces is what is decoded in the first and then in the second. -/
@[simp]
lemma decoded_append (t t' : List ClientTrace) : decoded (t ++ t') = decoded t ++ decoded t' := by
  simp only [decoded, List.filter_append]

/-- A trace is *silent*: nothing was decoded, and no link is gone. -/
def Silent (trace : List ClientTrace) : Prop :=
  ∀ t ∈ trace, t.isDecoded = false ∧ t.isClosing = false

/-- In an empty trace nothing is decoded, and the client does not close. -/
lemma silent_nil : Silent [] := fun _ ht => absurd ht List.not_mem_nil

/-- Settling a promise is neither decoding nor closing, so a trace of nothing else is silent. -/
lemma silent_settled (call : ℕ) (result : Except Fault Answer) : Silent [settled call result] := by
  intro t ht
  rw [List.mem_singleton.1 ht]
  exact ⟨rfl, rfl⟩

/-- Ending waits, with whatever results, is neither decoding nor closing. -/
lemma silent_ofWaits (waits : List Wait) (f : Wait → Except Fault Answer) :
    Silent (waits.flatMap fun w => ofWait w (f w)) := by
  intro t ht
  obtain ⟨w, -, hw⟩ := List.mem_flatMap.1 ht
  unfold ofWait at hw
  split at hw
  · exact silent_settled _ _ t hw
  · cases hw

/-- In a silent trace nothing is decoded, neither an event nor a malformed chunk. -/
lemma Silent.decoded {trace : List ClientTrace} (h : Silent trace) : decoded trace = [] :=
  List.filter_eq_nil_iff.2 fun t ht => by rw [(h t ht).1]; exact Bool.false_ne_true

/-- A silent trace does not tell that the link is gone. -/
lemma Silent.any_isClosing {trace : List ClientTrace} (h : Silent trace) :
    trace.any isClosing = false :=
  List.any_eq_false.2 fun t ht => by rw [(h t ht).2]; exact Bool.false_ne_true

end ClientTrace

namespace Link

/-- How many times a client hears a chunk that comes in on a pair of streams. -/
def ears (link : Link) : ℕ := if link.isOpen then link.listeners else 0

/-- The chunk that comes in. -/
def Happening.chunk? : Happening → Option Bytes
  | received chunk => some chunk
  | sourceEnded | sinkFailed => none

end Link

namespace Client

open ClientTrace (Silent decoded isClosing ofItem)

variable {c c' : Client} {chunk : Bytes} {chunks chunks' : List Bytes}

/-! ## Ears -/

/-- How many times a client hears a chunk that comes in on the streams it was bound to last. -/
def ears (c : Client) : ℕ :=
  match c.link with
  | some link => link.ears
  | none => 0

/-- How many times a client hears a chunk that comes in on streams it was bound to before. -/
def formerEars (c : Client) (i : ℕ) : ℕ :=
  match c.former[i]? with
  | some link => link.ears
  | none => 0

/-- A client is *tuned*: while it is open it is bound to streams on which it hears each chunk once,
and when it is closed it hears none. -/
structure Tuned (c : Client) : Prop where
  isOpen : c.isClosed = false → c.isBound = true ∧ ∃ sink, c.link = some ⟨1, true, sink⟩
  isOver : c.isClosed = true → c.ears = 0

/-- A tuned client hears what comes in once while it is open, and not at all when it is closed. -/
lemma Tuned.ears_eq (h : Tuned c) : c.ears = if c.isClosed then 0 else 1 := by
  cases hc : c.isClosed with
  | true => exact h.isOver hc
  | false =>
    obtain ⟨-, sink, hl⟩ := h.isOpen hc
    rw [ears, hl]
    rfl

/-- A client that is bound to new streams is tuned. -/
lemma tuned_bind_fresh (c : Client) (failure : Option String) : Tuned (c.bind (.fresh failure)) :=
  ⟨fun _ => ⟨rfl, _, rfl⟩, nofun⟩

/-- Another sink leaves a client tuned: what it listens to depends on its source only. -/
lemma Tuned.withSink (h : Tuned c) {link : Link} (hl : c.link = some link) (sink : Sink) :
    Tuned { c with link := some { link with sink := sink } } where
  isOpen hc := by
    obtain ⟨hb, sink', hl'⟩ := h.isOpen hc
    obtain rfl := Option.some.inj (hl.symm.trans hl')
    exact ⟨hb, sink, rfl⟩
  isOver hc := by
    have he := h.isOver hc
    rw [ears, hl] at he
    exact he

/-- A client that loses its link is tuned if it was heard once on that link, be its source still
open or not. -/
lemma tuned_lose
    (hopen : c.isClosed = false → c.isBound = true ∧ ∃ isOpen sink, c.link = some ⟨1, isOpen, sink⟩)
    (hover : c.isClosed = true → c.ears = 0) : Tuned c.lose.1 := by
  unfold lose
  split_ifs with hc
  · exact ⟨fun ho => absurd (hc.symm.trans ho) nofun, hover⟩
  · obtain ⟨hb, isOpen, sink, hl⟩ := hopen (Bool.eq_false_iff.2 hc)
    refine ⟨nofun, fun _ => ?_⟩
    rw [ears, unheard, hl, hb]
    cases isOpen <;> rfl

/-- Losing the link keeps a client tuned, as it is closed and hears nothing any more. -/
lemma Tuned.lose (h : Tuned c) : Tuned c.lose.1 := by
  refine tuned_lose (fun hc => ?_) h.isOver
  obtain ⟨hb, sink, hl⟩ := h.isOpen hc
  exact ⟨hb, true, sink, hl⟩

/-! ## Parts of the work -/

/-- A client *decodes* chunks: what it lets out of them, and what is left in its reader, is what its
reader gives. -/
structure Decodes (c : Client) (chunks : List Bytes) (result : Client × List ClientTrace) :
    Prop where
  decoded : ClientTrace.decoded result.2 = (c.reader.feed Event.format chunks).1.map ofItem
  reader : result.1.reader = (c.reader.feed Event.format chunks).2

/-- A client that *works* decodes chunks, stays tuned, and is closed afterwards if it was before or
tells so. It begins to hear nothing on the streams that it had before. -/
structure Works (c : Client) (chunks : List Bytes) (result : Client × List ClientTrace) :
    Prop extends
    Decodes c chunks result where
  isClosed : result.1.isClosed = (c.isClosed || result.2.any isClosing)
  tuned : Tuned c → Tuned result.1
  former : ∀ i, c.formerEars i = 0 → result.1.formerEars i = 0

/-- Decoding goes on where it has stopped: two parts of the work that decode the chunks that they
hear do so together. -/
lemma Decodes.append {r r' : Client × List ClientTrace} (h : Decodes c chunks r)
    (h' : Decodes r.1 chunks' r') :
    Decodes c (chunks ++ chunks') (r'.1, r.2 ++ r'.2) where
  decoded := by
    rw [ClientTrace.decoded_append, h.decoded, h'.decoded, h.reader, Reader.feed_append,
      List.map_append]
  reader := by rw [h'.reader, h.reader, Reader.feed_append]

/-- Two parts of the work that meet the frame conditions meet them together, with the chunks that
both hear. -/
lemma Works.append {r r' : Client × List ClientTrace} (h : Works c chunks r)
    (h' : Works r.1 chunks' r') :
    Works c (chunks ++ chunks') (r'.1, r.2 ++ r'.2) where
  toDecodes := h.toDecodes.append h'.toDecodes
  isClosed := by rw [h'.isClosed, h.isClosed, List.any_append, Bool.or_assoc]
  tuned ht := h'.tuned (h.tuned ht)
  former i hi := h'.former i (h.former i hi)

/-- Work of which the reader and the listeners notice nothing. -/
lemma works_silent {trace : List ClientTrace} (hr : c'.reader = c.reader)
    (hc : c'.isClosed = c.isClosed)
    (hf : c'.former = c.former) (ht : Tuned c → Tuned c') (hs : Silent trace) :
    Works c [] (c', trace) where
  decoded := hs.decoded
  reader := hr
  isClosed := by rw [hs.any_isClosing, Bool.or_false, hc]
  tuned := ht
  former i hi := by rw [← hi, formerEars, hf, formerEars]

/-- Doing nothing meets the frame conditions, with no chunk heard. -/
lemma works_nil (c : Client) : Works c [] (c, []) :=
  works_silent rfl rfl rfl id ClientTrace.silent_nil

/-- Other waits are no matter to what a client hears. -/
lemma works_waits (c : Client) (waits : List Wait) {trace : List ClientTrace} (hs : Silent trace) :
    Works c [] ({ c with waits := waits }, trace) :=
  works_silent rfl rfl rfl (fun h => ⟨h.isOpen, h.isOver⟩) hs

/-- Losing the link is work with no chunk to hear: the reader stays, and the client tells that it is
closed if it was not before. -/
lemma works_lose (hr : c'.reader = c.reader) (hc : c'.isClosed = c.isClosed)
    (hf : ∀ i, c.formerEars i = 0 → c'.formerEars i = 0) (ht : Tuned c → Tuned c'.lose.1) :
    Works c [] c'.lose := by
  unfold lose at ht ⊢
  split_ifs at ht ⊢ with hclosed
  · exact ⟨⟨rfl, hr⟩, by rw [hc]; exact (Bool.or_false _).symm, ht, hf⟩
  · have hs := ClientTrace.silent_ofWaits c'.waits fun w => .error (.closedWhileWaiting w.tag)
    exact ⟨⟨hs.decoded, hr⟩, (Bool.or_true _).symm, ht, hf⟩

/-! ## Hearing -/

/-- Taking up items changes the waits only.

**Proof sketch.** Induction on the items. Hearing an event ends waits, which is silent, and an error
that is shown is no event. -/
lemma takeItems_frame (c : Client) (items : List (Item Event)) :
    (∃ waits, (c.takeItems items).1 = { c with waits := waits }) ∧
      decoded (c.takeItems items).2 = items.map ofItem ∧ (c.takeItems items).2.any isClosing =
        false := by
  induction items generalizing c with
  | nil => exact ⟨⟨c.waits, rfl⟩, rfl, rfl⟩
  | cons item items ih =>
    cases item with
    | value e =>
      obtain ⟨⟨waits, hw⟩, hd, hc⟩ := ih (c.hear e).1
      have hs := ClientTrace.silent_ofWaits (c.waits.filter fun w => w.awaits e) fun w =>
        w.wanted.part e
      refine ⟨⟨waits, hw⟩, ?_, ?_⟩
      · rw [takeItems, ClientTrace.decoded_append, hd]
        exact congrArg (ClientTrace.event e :: · ++ items.map ofItem) hs.decoded
      · rw [takeItems, List.any_append, hc, Bool.or_false]
        exact hs.any_isClosing
    | malformed cause =>
      obtain ⟨hw, hd, hc⟩ := ih c
      exact ⟨hw, congrArg (_ :: ·) hd, hc⟩

/-- Hearing a chunk.

**Proof sketch.** The items are those of the reader with the chunk pushed, and `takeItems_frame`
says that taking them up changes the waits only. -/
lemma works_hearChunk (c : Client) (chunk : Bytes) : Works c [chunk] (c.hearChunk chunk) := by
  obtain ⟨⟨waits, hw⟩, hd, hc⟩ :=
    takeItems_frame { c with reader := ((c.reader.push chunk).drain Event.format).2 }
    ((c.reader.push chunk).drain Event.format).1
  have hfeed : c.reader.feed Event.format [chunk] = (c.reader.push chunk).drain Event.format := by
    simp only [Reader.feed, List.append_nil]
  have hr : (c.hearChunk chunk).1 =
      { c with reader := ((c.reader.push chunk).drain Event.format).2, waits := waits } := hw
  exact {
    decoded := by rw [hfeed]; exact hd
    reader := by rw [hfeed, hr]
    isClosed := by rw [hr]; exact ((Bool.or_false _).symm.trans (congrArg _ hc.symm))
    tuned := fun h => by rw [hr]; exact ⟨h.isOpen, h.isOver⟩
    former := fun i hi => by rw [hr]; exact hi }

/-- Hearing a chunk several times, as a client does that listens to one source more than once. -/
lemma works_hearTimes (c : Client) (chunk : Bytes) (n : ℕ) :
    Works c (.replicate n chunk) (c.hearTimes chunk n) := by
  induction n generalizing c with
  | zero => exact works_nil c
  | succ n ih => exact (works_hearChunk c chunk).append (ih (c.hearChunk chunk).1)

/-- A chunk that comes in is heard as often as the client listens to the source it comes from.

**Proof sketch.** As often as the client listens to its source, and for no link that is not at all,
it hears the chunk. -/
lemma works_receive (c : Client) (chunk : Bytes) :
    Works c (.replicate c.ears chunk) (c.receive chunk) := by
  have hreceive : c.receive chunk = c.hearTimes chunk c.ears := by
    unfold receive ears Link.ears
    cases c.link with
    | none => rfl
    | some link =>
      dsimp only
      split_ifs <;> rfl
  rw [hreceive]
  exact works_hearTimes c chunk c.ears

/-! ## The other happenings -/

/-- Another state of streams that a client had before, on which it is not heard more often than it
was. -/
lemma formerEars_set {link link' : Link} {i : ℕ} (hl : c.former[i]? = some link)
    (he : link.ears = 0 → link'.ears = 0) (j : ℕ) (hj : c.formerEars j = 0) :
    formerEars { c with former := c.former.set i link' } j = 0 := by
  unfold formerEars at hj ⊢
  dsimp only
  rw [List.getElem?_set]
  split_ifs with hij hlt
  · rw [← hij, hl] at hj
    exact he hj
  · rfl
  · exact hj

/-- What happens on streams that the client had before.

**Proof sketch.** Without such streams nothing happens. A chunk on them is heard once for each
listener, and their end or the failure of a write on them closes the client, whatever link it has
now. -/
lemma works_formerly (c : Client) (i : ℕ) (x : Link.Happening) :
    Works c (x.chunk?.toList.flatMap (.replicate (c.formerEars i))) (c.formerly i x) := by
  have htuned {former : List Link} (h : Tuned c) : Tuned (lose { c with former := former }).1 :=
    Tuned.lose ⟨h.isOpen, h.isOver⟩
  unfold formerly
  cases hl : c.former[i]? with
  | none =>
    have hnone : x.chunk?.toList.flatMap (List.replicate (c.formerEars i)) = [] := by
      rw [formerEars, hl]
      exact List.flatMap_eq_nil_iff.2 fun _ _ => rfl
    rw [hnone]
    exact works_nil c
  | some link =>
    have hears : c.formerEars i = link.ears := by rw [formerEars, hl]
    cases x with
    | received chunk =>
      have hheard : (if link.isOpen then c.hearTimes chunk link.listeners else (c, [])) =
          c.hearTimes chunk link.ears := by
        unfold Link.ears
        split_ifs <;> rfl
      dsimp only
      rw [hheard, hears, Link.Happening.chunk?, Option.toList_some, List.flatMap_singleton]
      exact works_hearTimes c chunk link.ears
    | sourceEnded =>
      dsimp only
      split_ifs
      · exact works_lose rfl rfl (formerEars_set hl fun _ => rfl) htuned
      · exact works_nil c
    | sinkFailed =>
      dsimp only
      split_ifs
      · exact works_lose rfl rfl (formerEars_set hl fun he => he) htuned
      · exact works_nil c

/-- The end of the source: an open client closes and hears nothing of it any more.

**Proof sketch.** Without a link or without listening to its end nothing is done. Otherwise the link
is lost, and a tuned client was open then and has its streams still. -/
lemma works_sourceEnded (c : Client) : Works c [] c.sourceEnded := by
  unfold sourceEnded
  cases hl : c.link with
  | none => exact works_nil c
  | some link =>
    dsimp only
    split_ifs
    · refine works_lose rfl rfl (fun _ hi => hi) fun h => tuned_lose (fun hc => ?_) fun _ => rfl
      obtain ⟨hb, sink, hl'⟩ := h.isOpen hc
      obtain rfl := Option.some.inj (hl.symm.trans hl')
      exact ⟨hb, false, sink, rfl⟩
    · exact works_nil c

/-- The failure of a write that was not waited for closes the client; no chunk is heard. -/
lemma works_sinkFailed (c : Client) : Works c [] c.sinkFailed := by
  unfold sinkFailed
  cases hl : c.link with
  | none => exact works_nil c
  | some link =>
    dsimp only
    split_ifs
    · exact works_lose rfl rfl (fun _ hi => hi) fun h => (h.withSink hl _).lose
    · exact works_nil c

/-- Taking up the failure of a write at the end of a happening: the client closes, and no chunk is
heard. -/
lemma works_settle (c : Client) : Works c [] c.settle := by
  unfold settle
  cases hl : c.link with
  | none => exact works_nil c
  | some link =>
    dsimp only
    split
    · exact works_lose rfl rfl (fun _ hi => hi) fun h => (h.withSink hl _).lose
    · exact works_nil c

/-- The passing of time ends waits and leaves the streams as they are. -/
lemma works_advance (c : Client) (elapsed : Number) : Works c [] (c.advance elapsed) :=
  works_silent rfl rfl rfl (fun h => ⟨h.isOpen, h.isOver⟩) (ClientTrace.silent_ofWaits _ _)

/-- Writing changes the sink only, and what is written is neither decoded nor closing.

**Proof sketch.** Only the sink of the link is another one, and the trace has the frame or nothing.
-/
lemma works_write (c : Client) (bytes : Bytes) : Works c [] (c.write bytes) := by
  unfold write
  cases hl : c.link with
  | none => exact works_nil c
  | some link =>
    refine works_silent rfl rfl rfl (fun h => h.withSink hl _) fun t ht => ?_
    split_ifs at ht
    · rw [List.mem_singleton.1 ht]
      exact ⟨rfl, rfl⟩
    · cases ht

/-- Sending a command writes its frame or does nothing. -/
lemma works_send (c : Client) (command : Command) :
    Works c [] ((c.send command).client, (c.send command).trace) := by
  unfold send
  split_ifs
  · cases command.encode with
    | ok bytes => exact works_write c bytes
    | error f => exact works_nil c
  · exact works_nil c

/-- Sending commands one after the other, up to the first that is refused.

**Proof sketch.** Induction on the commands, one send after the other. -/
lemma works_sendAll (c : Client) (commands : List Command) :
    Works c [] ((c.sendAll commands).client, (c.sendAll commands).trace) := by
  induction commands generalizing c with
  | nil => exact works_nil c
  | cons command commands ih =>
    have hfirst := works_send c command
    rw [sendAll]
    dsimp only
    cases (c.send command).result with
    | error f => exact hfirst
    | ok _ => exact hfirst.append (ih (c.send command).client)

/-- Waiting for an event adds a wait, or settles the promise of a closed client at once. -/
lemma works_await (c : Client) (call : ℕ) (tag : EventTag) (limit : Option Number) :
    Works c [] (c.await call tag limit) := by
  unfold await
  split_ifs
  · exact works_silent rfl rfl rfl id (ClientTrace.silent_settled _ _)
  · exact works_waits c _ ClientTrace.silent_nil

/-- A query adds a wait and sends its command, or settles its promise with the fault.

**Proof sketch.** The wait is added first, which lets nothing out. Then either the command is sent,
or the fault settles the promise. -/
lemma works_query (c : Client) (call : ℕ) (command : Command) (tag : EventTag) (wanted : Wanted)
    (limit : Option Number) : Works c [] (c.query call command tag wanted limit) := by
  have hwaits (call : Option ℕ) {trace : List ClientTrace} (hs : Silent trace) : Works c []
      (if c.isClosed then c else { c with waits := c.waits ++ [c.newWait call tag wanted limit] },
        trace) := by
    split_ifs
    · exact works_silent rfl rfl rfl id hs
    · exact works_waits c _ hs
  unfold query
  dsimp only
  split
  · exact (hwaits (some call) ClientTrace.silent_nil).append (works_send _ command)
  · exact hwaits none (ClientTrace.silent_settled _ _)

/-- Letting go of the streams behind other work loses the link too, and adds nothing to what is
decoded. -/
lemma Works.letGo {r : Client × List ClientTrace} (h : Works c [] r) :
    Works c [] ({ r.1.lose.1 with isBound := false }, r.2 ++ r.1.lose.2) := by
  have hl : Works c [] (r.1.lose.1, r.2 ++ r.1.lose.2) :=
    h.append (works_lose rfl rfl (fun _ hi => hi) Tuned.lose)
  have hclosed := isClosed_lose r.1
  exact ⟨⟨hl.decoded, hl.reader⟩, hl.isClosed, fun ht =>
    ⟨fun ho => absurd (hclosed.symm.trans ho) nofun, (hl.tuned ht).isOver⟩, hl.former⟩

/-- Closing: the client sends the stop command if it can, ends its sink and loses its link, but
hears nothing.

**Proof sketch.** Three works one after the other, if the client is connected: sending the stop
command, ending the sink, letting go. Otherwise only the last. -/
lemma works_close (c : Client) : Works c [] c.close := by
  have hstop := works_send c .stop
  unfold close
  split_ifs
  · dsimp only
    cases hl : (c.send .stop).client.link with
    | none => exact hstop.letGo
    | some link =>
      have hended : Silent (if link.sink.finish.2 then [.ended] else []) := by
        intro t ht
        split_ifs at ht
        · rw [List.mem_singleton.1 ht]
          exact ⟨rfl, rfl⟩
        · cases ht
      have hfinish : Works (c.send .stop).client []
          ({ (c.send .stop).client with link := some { link with sink := link.sink.finish.1 } },
            if link.sink.finish.2 then [.ended] else []) :=
        works_silent rfl rfl rfl (fun h => h.withSink hl link.sink.finish.1) hended
      exact (hstop.append hfinish).letGo
  · exact (works_nil c).letGo

/-- What is asked of the client does not bring in chunks.

**Proof sketch.** One case for each request. Those that check something first do nothing, or only
settle their promise, if the check fails. -/
lemma works_call (c : Client) (id : ℕ) (request : Request) :
    Works c [] ((c.call id request).client, (c.call id request).trace) := by
  cases request with
  | send command => exact works_send c command
  | sendKey name =>
    rw [call, sendKey]
    cases Key.resolve? name with
    | some key => exact works_send c (.inputKey key)
    | none => exact works_nil c
  | writeMemory address bytes =>
    rw [call, writeMemory]
    split_ifs
    · exact works_nil c
    · exact works_sendAll c _
  | await tag limit => exact works_await c id tag limit
  | dump limit => exact works_query c id _ _ _ limit
  | readMemory first last limit =>
    rw [call, readMemory]
    split_ifs
    · exact works_silent rfl rfl rfl (fun h => h) (ClientTrace.silent_settled _ _)
    · exact works_query c id _ _ _ limit
  | readStack limit => exact works_query c id _ _ _ limit
  | close => exact works_close c

/-! ## One happening -/

namespace Happening

/-- Whether the client is bound to streams. -/
def binds : Happening → Bool
  | bound _ | rebound => true
  | received _ | sourceEnded | sinkFailed | formerly .. | elapsed _ | called .. => false

/-- The chunk that comes in on the streams that the client was bound to last. -/
def chunk? : Happening → Option Bytes
  | received chunk => some chunk
  | _ => none

end Happening

variable {x : Happening} {xs ys : List Happening}

/-- The chunks that a client hears when something happens to it, as often as it hears them. -/
def heardBy (c : Client) : Happening → List Bytes
  | .received chunk => .replicate c.ears chunk
  | .formerly i x => x.chunk?.toList.flatMap (.replicate (c.formerEars i))
  | _ => []

/-- What happens to a client, other than that it is bound to streams, makes it hear the chunks of
`heardBy`. -/
lemma works_respond (c : Client) (hx : x.binds = false) :
    Works c (c.heardBy x) ((c.respond x).client, (c.respond x).trace) := by
  cases x with
  | bound failure | rebound => cases hx
  | received chunk => exact works_receive c chunk
  | sourceEnded => exact works_sourceEnded c
  | sinkFailed => exact works_sinkFailed c
  | formerly i x => exact works_formerly c i x
  | elapsed time => exact works_advance c time
  | called id request => exact works_call c id request

/-- **One happening** that does not bind the client is work on the chunks that are heard by it. -/
theorem works_happen (c : Client) (hx : x.binds = false) :
    Works c (c.heardBy x) ((c.happen x).client, (c.happen x).trace) := by
  have h := (works_respond c hx).append (works_settle (c.respond x).client)
  rwa [List.append_nil] at h

/-- **One happening** decodes what is heard by it, and nothing else.

**Proof sketch.** A happening that does not bind is work, by `works_happen`. Binding changes neither
the reader nor the trace; the failed writes that are taken up behind it are work on no chunks. -/
theorem decodes_happen (c : Client) (x : Happening) :
    Decodes c (c.heardBy x) ((c.happen x).client, (c.happen x).trace) := by
  cases hx : x.binds with
  | false => exact (works_happen c hx).toDecodes
  | true =>
    -- binding lets nothing out, and a failed write of the streams that were there may be taken up
    have hbind : Decodes c [] ((c.respond x).client, (c.respond x).trace) ∧ c.heardBy x = [] := by
      cases x with
      | bound failure | rebound => exact ⟨⟨rfl, rfl⟩, rfl⟩
      | received _ | sourceEnded | sinkFailed | formerly _ _ | elapsed _ | called _ _ => cases hx
    rw [hbind.2]
    exact hbind.1.append (works_settle (c.respond x).client).toDecodes

/-! ## Runs -/

/-- The chunks that a client hears in a run, as often as it hears them. -/
def heardIn (c : Client) : List Happening → List Bytes
  | [] => []
  | x :: xs => c.heardBy x ++ (c.happen x).client.heardIn xs

/-- **A run**: what is decoded, and what is left in the reader, is what the reader gives for the
chunks heard. -/
theorem decodes_run (c : Client) (xs : List Happening) : Decodes c (c.heardIn xs) (c.run xs) := by
  induction xs generalizing c with
  | nil => exact (works_nil c).toDecodes
  | cons x xs ih => exact (decodes_happen c x).append (ih (c.happen x).client)

/-- The chunks that come in at a client, up to and including the happening in which it tells that
its link is gone. -/
def openChunks (c : Client) : List Happening → List Bytes
  | [] => []
  | x :: xs =>
    x.chunk?.toList ++
      if (c.happen x).trace.any isClosing then [] else (c.happen x).client.openChunks xs

/-! ## One link -/

/-- A happening *stays on* the link of a client: it does not bind the client, and if it brings a
chunk on streams that the client had before, the client does not listen to those any more. -/
structure StaysOn (c : Client) (y : Happening) : Prop where
  /-- It does not bind the client. -/
  binds : y.binds = false
  /-- The client hears nothing of it on streams that it had before. -/
  former : ∀ i chunk, y = .formerly i (.received chunk) → c.formerEars i = 0

/-- Where nothing is heard on the streams of before, all that does not bind the client stays on its
link. -/
lemma staysOn_of_formerEars (hf : ∀ i, c.formerEars i = 0) (hx : x.binds = false) : c.StaysOn x :=
  ⟨hx, fun i _ _ => hf i⟩

/-- What stays on the link is heard as often as the client listens to it. -/
lemma StaysOn.heardBy_eq (h : c.StaysOn x) :
    c.heardBy x = x.chunk?.toList.flatMap (.replicate c.ears) := by
  cases x with
  | received chunk => exact (List.flatMap_singleton ..).symm
  | formerly i x =>
    cases x with
    | received chunk => rw [heardBy, h.former i chunk rfl]; rfl
    | sourceEnded | sinkFailed => rfl
  | bound _ | rebound | sourceEnded | sinkFailed | elapsed _ | called _ _ => rfl

/-- What stays on the link does so behind other work as well. -/
lemma Works.staysOn {r : Client × List ClientTrace} (h : Works c chunks r) (hx : c.StaysOn x) :
    r.1.StaysOn x :=
  ⟨hx.binds, fun i chunk he => h.former i (hx.former i chunk he)⟩

/-- A closed client hears nothing until it is bound again.

**Proof sketch.** Induction on the happenings. A tuned client that is closed does not listen to its
source, hears nothing, and is tuned and closed afterwards. -/
lemma heardIn_of_isClosed (ht : Tuned c) (hc : c.isClosed = true) (hys : ∀ y ∈ ys, c.StaysOn y) :
    c.heardIn ys = [] := by
  induction ys generalizing c with
  | nil => rfl
  | cons y ys ih =>
    obtain ⟨hstays, hrest⟩ := List.forall_mem_cons.1 hys
    have hy := works_happen c hstays.binds
    have hclosed : (c.happen y).client.isClosed = true := by rw [hy.isClosed, hc]; rfl
    have hnone : c.heardBy y = [] := by
      rw [hstays.heardBy_eq, ht.isOver hc]
      exact List.flatMap_eq_nil_iff.2 fun _ _ => rfl
    rw [heardIn, hnone, ih (hy.tuned ht) hclosed fun y' hy' => hy.staysOn (hrest y' hy')]
    rfl

/-- **An open client** hears each chunk that comes in once, until it tells that its link is gone,
and none behind that.

**Proof sketch.** Induction on the happenings, for all tuned open clients. What the client hears of
the first one is its chunk, once. If the client closes with it, `heardIn_of_isClosed` says that
nothing more is heard; otherwise it is tuned and open again. -/
theorem heardIn_eq_openChunks (ht : Tuned c) (hc : c.isClosed = false)
    (hys : ∀ y ∈ ys, c.StaysOn y) :
    c.heardIn ys = c.openChunks ys := by
  induction ys generalizing c with
  | nil => rfl
  | cons y ys ih =>
    obtain ⟨hstays, hothers⟩ := List.forall_mem_cons.1 hys
    have hy := works_happen c hstays.binds
    have hrest : ∀ y' ∈ ys, (c.happen y).client.StaysOn y' :=
      fun y' hy' => hy.staysOn (hothers y' hy')
    have hone : c.heardBy y = y.chunk?.toList := by
      rw [hstays.heardBy_eq, ht.ears_eq, hc]
      cases y.chunk? <;> rfl
    have hclosed : (c.happen y).client.isClosed = (c.happen y).trace.any isClosing := by
      rw [hy.isClosed, hc, Bool.false_or]
    rw [heardIn, openChunks, hone]
    split_ifs with hclosing
    · rw [heardIn_of_isClosed (hy.tuned ht) (hclosed.trans hclosing) hrest]
    · rw [ih (hy.tuned ht) (hclosed.trans (Bool.eq_false_iff.2 hclosing)) hrest]

/-! ## Attachments -/

/-- **Streams of before**: if the client hears nothing on any of them, it stays so, as long as it is
bound to new streams only when it hears nothing on those that it has.

**Proof sketch.** Nothing but a binding adds to the streams of before, and it adds the link that the
client has, on which it hears nothing by assumption. -/
theorem formerEars_happen (hf : ∀ i, c.formerEars i = 0)
    (hx : ∀ failure, x = .bound failure → c.ears = 0) (i : ℕ) :
    (c.happen x).client.formerEars i = 0 := by
  cases hb : x.binds with
  | false => exact (works_happen c hb).former i (hf i)
  | true =>
    refine (works_settle (c.respond x).client).former i ?_
    cases x with
    | bound failure =>
      have hlink : ∀ link ∈ c.link.toList, link.ears = 0 := by
        intro link hl
        have hears := hx failure rfl
        rw [ears, Option.mem_toList.1 hl] at hears
        exact hears
      show formerEars (c.bind (.fresh failure)) i = 0
      unfold formerEars
      split
      case h_1 link hl =>
        rcases List.mem_append.1 (List.mem_of_getElem? hl) with hmem | hmem
        · obtain ⟨j, hj⟩ := List.getElem?_of_mem hmem
          have hears := hf j
          rw [formerEars, hj] at hears
          exact hears
        · exact hlink link hmem
      case h_2 => rfl
    | rebound => exact hf i
    | received _ | sourceEnded | sinkFailed | formerly _ _ | elapsed _ | called _ _ => cases hb

/-- What is decoded on a new link is read by the reader of before, from the chunks that come in
until it tells that the link is gone. -/
lemma decoded_run_cons_bound (c : Client) (failure : Option String)
    (hys : ∀ y ∈ ys, (c.bind (.fresh failure)).StaysOn y) :
    decoded (c.run (.bound failure :: ys)).2 =
      (c.reader.feed Event.format ((c.bind (.fresh failure)).openChunks ys)).1.map ofItem := by
  have hd := (decodes_run (c.bind (.fresh failure)) ys).decoded
  rw [heardIn_eq_openChunks (tuned_bind_fresh c failure) rfl hys] at hd
  exact hd

/-- A new reader gives the request for a key when its byte comes in. -/
lemma feed_empty_keyRequested :
    (Reader.empty.feed Event.format [[0x6b]]).1 = [.value .keyRequested] := by
  have hdecode : Event.format.decode [0x6b] = .value .keyRequested 1 := rfl
  have hdrain : (Reader.drain Event.format ⟨[0x6b]⟩).1 = [.value .keyRequested] := by
    rw [Reader.drain_of_value hdecode]
    exact congrArg (_ :: ·) (congrArg Prod.fst (Reader.drain_nil Event.format))
  simp only [Reader.feed, List.append_nil]
  exact hdrain

/-- A reader that holds the beginning of an event at most, and nothing else, gives the request for a
key when its byte comes in only if it holds nothing.

**Proof sketch.** If it held anything, the first byte of that would have to be the one of the
request. But with that byte the request is complete. -/
lemma eq_empty_of_feed_keyRequested {r : Reader} (hr : Event.format.decode r.buffer = .incomplete)
    (h : (r.feed Event.format [[0x6b]]).1 = [.value .keyRequested]) : r = .empty := by
  obtain ⟨bytes⟩ := r
  cases bytes with
  | nil => rfl
  | cons first rest =>
    have hdrain :
        (Reader.drain Event.format ⟨first :: (rest ++ [0x6b])⟩).1 = [.value .keyRequested] := by
      simpa only [Reader.feed, Reader.push, List.cons_append, List.append_nil] using h
    obtain ⟨n, hvalue⟩ :
        ∃ n, Event.decode (first :: (rest ++ [0x6b])) = .value .keyRequested n := by
      cases hd : Event.decode (first :: (rest ++ [0x6b])) with
      | incomplete =>
        rw [Reader.drain_of_incomplete hd] at hdrain
        cases hdrain
      | value e n =>
        rw [Reader.drain_of_value hd] at hdrain
        obtain rfl := Item.value.inj (List.cons.inj hdrain).1
        exact ⟨n, rfl⟩
      | malformed cause n =>
        rw [Reader.drain_of_item (by exact congrArg Decoded.item? hd)] at hdrain
        cases hdrain
    have hr : Event.decode (first :: rest) = .incomplete := hr
    rw [Event.decode] at hvalue hr
    cases htag : EventTag.ofByte? first with
    | none =>
      rw [htag] at hr
      cases hr
    | some tag =>
      rw [htag] at hvalue hr
      obtain rfl : EventTag.keyRequested = tag := (Event.cases_of_decodeTagged hvalue).1
      cases hr

/-- **What is decoded on a link**, from an attachment to the next. Before the attachment anything
may have happened.
* Until it tells that the link is gone, the client decodes each chunk that comes in once, and none
  behind that. But it goes on from what the chunks of the earlier links have left in its reader.
  Nothing comes in here on the streams of earlier links, except on those to which the client does
  not listen any more.
* So on every link it decodes what a new reader gives exactly if they have left nothing.
* If it listens to no streams of before when it is attached, and to none that it has, then nothing
  that happens on them is heard, as it would have to be in the first clause.
* Whatever happens, what it decodes is what its reader gives for all chunks that it hears, on any
  streams.

**Proof sketch.** The reader is that of the chunks heard so far, because every happening feeds what
is heard by it. What is decoded on a new link goes on from there by `decoded_run_cons_bound`. That
is the same as from an empty reader if it is empty. If it is the same for all chunks then it is for
the single byte of a request for a key, which a reader with bytes left over takes as part of their
frame. -/
theorem decoded_run_bound (timeout : Option Number) (xs : List Happening) {c : Client}
    (hc : ((unbound timeout).run xs).1 = c) :
    c.reader = (Reader.empty.feed Event.format ((unbound timeout).heardIn xs)).2 ∧
    (∀ failure ys, (∀ y ∈ ys, (c.bind (.fresh failure)).StaysOn y) →
      decoded (c.run (.bound failure :: ys)).2 =
      (c.reader.feed Event.format ((c.bind (.fresh failure)).openChunks ys)).1.map ofItem) ∧
    ((∀ failure ys, (∀ y ∈ ys, (c.bind (.fresh failure)).StaysOn y) →
      decoded (c.run (.bound failure :: ys)).2 =
      (Reader.empty.feed Event.format ((c.bind (.fresh failure)).openChunks ys)).1.map ofItem) ↔
      c.reader = .empty) ∧
    ((∀ i, c.formerEars i = 0) → c.ears = 0 → ∀ failure y, y.binds = false →
      (c.bind (.fresh failure)).StaysOn y) ∧
    ∀ ys, decoded (c.run ys).2 = (c.reader.feed Event.format (c.heardIn ys)).1.map ofItem := by
  have hreader : c.reader = (Reader.empty.feed Event.format ((unbound timeout).heardIn xs)).2 := by
    rw [← hc]
    exact (decodes_run (unbound timeout) xs).reader
  have hpartial : Event.format.decode c.reader.buffer = .incomplete := by
    rw [hreader]
    exact Reader.decode_feed Event.format.decode_nil _
  refine ⟨hreader, fun failure ys hys => decoded_run_cons_bound c failure hys,
    ⟨fun hfresh => ?_, fun he => ?_⟩,
    fun hf he failure y hy => ?_, fun ys => (decodes_run c ys).decoded⟩
  · -- one chunk tells the two readers apart: the byte that is a whole event by itself
    have hkey : ∀ y ∈ [Happening.received [0x6b]], (c.bind (.fresh none)).StaysOn y :=
      List.forall_mem_singleton.2 ⟨rfl, nofun⟩
    have hsame := (decoded_run_cons_bound c none hkey).symm.trans (hfresh none _ hkey)
    have hchunks : (c.bind (.fresh none)).openChunks [.received [0x6b]] = [[0x6b]] := by
      rw [openChunks, openChunks, ite_self]
      rfl
    rw [hchunks, feed_empty_keyRequested] at hsame
    obtain ⟨item, hitem, hevent⟩ := List.map_eq_singleton_iff.1 hsame
    rw [ClientTrace.eq_value_of_ofItem hevent] at hitem
    exact eq_empty_of_feed_keyRequested hpartial hitem
  · intro failure ys hys
    rw [decoded_run_cons_bound c failure hys, he]
  · exact staysOn_of_formerEars (formerEars_happen (x := .bound failure) hf fun _ _ => he) hy

/-- An old link ends in the middle of a text of five bytes. On the new one its last four come in;
then the sink fails, and what comes in behind that is not heard. Nor is what comes in on the old
link. The first clause gives the chunks that are heard, and with them the text. -/
theorem decoded_run_bound_of_cut_output :
    ∃ c, ((unbound none).run [.bound none, .received [0x6f, 5, 0x68], .sourceEnded]).1 = c ∧
      c.reader = ⟨[0x6f, 5, 0x68]⟩ ∧
      decoded (c.run [.bound none, .formerly 0 (.received [0x6b]),
        .received [0x65, 0x6c, 0x6c, 0x6f], .sinkFailed,
        .received [0x6b]]).2 = [.event (.output "hello")] := by
  obtain ⟨hreader, hlink, -, hstays, -⟩ :=
    decoded_run_bound none [.bound none, .received [0x6f, 5, 0x68], .sourceEnded] rfl
  have hcut : ((unbound none).run [.bound none, .received [0x6f, 5, 0x68], .sourceEnded]).1.reader =
      ⟨[0x6f, 5, 0x68]⟩ :=
    hreader.trans (by decide +kernel)
  have hformer :
      ((unbound none).run [.bound none, .received [0x6f, 5, 0x68], .sourceEnded]).1.former =
        [] := by
    decide +kernel
  have hquiet :=
    hstays (fun i => by rw [formerEars, hformer, List.getElem?_nil]) (by decide +kernel) none
  refine ⟨_, rfl, hcut, ?_⟩
  rw [hlink none _ fun y hy => hquiet y (by revert y; simp [Happening.binds]), hcut]
  have hchunks :
      (Client.bind ((unbound none).run [.bound none, .received [0x6f, 5, 0x68], .sourceEnded]).1
      (.fresh none)).openChunks [.formerly 0 (.received [0x6b]), .received [0x65, 0x6c, 0x6c, 0x6f],
        .sinkFailed, .received [0x6b]] = [[0x65, 0x6c, 0x6c, 0x6f]] := by
    decide +kernel
  have hitems : (Reader.feed Event.format ⟨[0x6f, 5, 0x68]⟩ [[0x65, 0x6c, 0x6c, 0x6f]]).1 =
      [.value (.output "hello")] := by
    decide +kernel
  rw [hchunks, hitems]
  rfl

/-- An old link ends in the middle of a text. A request for a key that comes in on the new link is
taken for the next letter of that text: nothing is decoded, where a new reader gives the request. -/
theorem not_fresh_of_cut_output :
    ∃ c, ((unbound none).run [.bound none, .received [0x6f, 5, 0x68], .sourceEnded]).1 = c ∧
      decoded (c.run [.bound none, .received [0x6b]]).2 = [] ∧
      (Reader.empty.feed Event.format ((c.bind (.fresh none)).openChunks [.received [0x6b]])).1.map
        ofItem = [.event .keyRequested] := by
  refine ⟨_, rfl, ?_, ?_⟩
  · refine List.isEmpty_iff.1 ?_
    decide +kernel
  · rw [openChunks, openChunks, ite_self]
    exact congrArg (List.map ofItem) feed_empty_keyRequested

end Client

end DebugWire
