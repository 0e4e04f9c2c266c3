import DebugWire.Proofs.Client.Resolution
import DebugWire.Proofs.Client.Settling
import DebugWire.Proofs.Client.Transparency
import DebugWire.Proofs.Engine.Poking
import Mathlib.Data.List.TakeWhile

set_option relaxedAutoImplicit false
set_option autoImplicit false

/-!
# Memory that a client writes and reads back

A client writes bytes into the memory of a device, and then asks for them. If no answer to an
earlier request for memory is still to come when it asks, it gets these bytes. It can write up to
the last byte of a full memory, but a range that it asks for ends at an address of sixteen bits: the
last byte of 65536 cannot be read.

## Main definitions

* `DebugWire.Client.Hopeful` — a call that waits for memory, or has got it.
* `DebugWire.Exchange.Happening.clock` — the time of the client after a happening.

## Main results

* `DebugWire.Exchange.hopeful_run` — what happenings keep.
* `DebugWire.Exchange.reads_back_run_start` — bytes that are written and read.
* `DebugWire.Exchange.not_reads_back_of_last_byte` — bytes that are not read back.
-/

namespace DebugWire

open ClientTrace (asked heard)
open SessionTrace (commands written)

/-! ## Clients -/

namespace Client

variable {c : Client} {deadline : Number} {id : ℕ} {trace : List ClientTrace}

/-- A call is *hopeful* if it waits for the bytes of memory until a deadline, or it was settled with
an answer. -/
def Hopeful (deadline : Number) (id : ℕ) (c : Client) (trace : List ClientTrace) : Prop :=
  (∃ w ∈ c.waits, w.call = some id ∧ w.tag = .memoryResult ∧ w.wanted = .bytes ∧
    w.deadline = deadline) ∨
    ∃ a, .settled id (.ok a) ∈ trace

/-- While its wait goes on, and when more was let out, a call is hopeful still. -/
lemma Hopeful.mono (h : Hopeful deadline id c trace) {c' : Client}
    (hw : ∀ w ∈ c.waits, w.deadline = deadline → w ∈ c'.waits) (trace' : List ClientTrace) :
    Hopeful deadline id c' (trace ++ trace') := by
  rcases h with ⟨w, hmem, hid, htag, hwanted, hdeadline⟩ | ⟨a, ha⟩
  · exact .inl ⟨w, hw w hmem hdeadline, hid, htag, hwanted, hdeadline⟩
  · exact .inr ⟨a, List.mem_append_left _ ha⟩

/-- Hearing an event, a call that is hopeful stays so: what it waits for has bytes.

**Proof sketch.** If the wait is not for this event, it goes on. If it is, the event is an answer
with bytes, and its call is settled with them. -/
lemma Hopeful.hear (h : Hopeful deadline id c trace) (ev : Event) :
    Hopeful deadline id (c.hear ev).1 (trace ++ (c.hear ev).2) := by
  rcases h with ⟨w, hmem, hid, htag, hwanted, hdeadline⟩ | ⟨a, ha⟩
  · cases haw : w.awaits ev with
    | false =>
      exact .inl ⟨w, List.mem_filter.2 ⟨hmem, by rw [haw]; rfl⟩, hid, htag, hwanted, hdeadline⟩
    | true =>
      have hev : EventTag.memoryResult = ev.tag := htag ▸ of_decide_eq_true haw
      obtain ⟨bytes, rfl⟩ : ∃ bytes, ev = .memoryResult bytes := by
        cases ev with
        | memoryResult bytes => exact ⟨bytes, rfl⟩
        | _ => cases hev
      refine .inr ⟨.bytes bytes, List.mem_append_right _ (List.mem_cons_of_mem _ ?_)⟩
      refine List.mem_flatMap.2 ⟨w, List.mem_filter.2 ⟨hmem, haw⟩, ?_⟩
      rw [ClientTrace.ofWait, hid, hwanted]
      exact List.mem_singleton_self _
  · exact .inr ⟨a, List.mem_append_left _ ha⟩

/-- A call that is hopeful stays so as long as the clock has not come to its deadline. -/
lemma Hopeful.elapsed (h : Hopeful deadline id c trace) (hc : c.Attached) {time : Number}
    (htime : deadline.le (c.now + time) = false) :
    Hopeful deadline id (c.happen (.elapsed time)).client (trace ++
      (c.happen (.elapsed time)).trace) := by
  rw [(happen_of_attached (x := .elapsed time) (hc.advance time)).1]
  refine h.mono (fun w hw hdeadline => List.mem_filter.2 ⟨hw, ?_⟩) _
  rw [Wait.isDue, hdeadline, htime]
  rfl

/-- Sending commands leaves an attached client as it is.

**Proof sketch.** Induction on the commands: sending one leaves an attached client as it is. -/
lemma Attached.client_sendAll (h : Attached c) (cs : List Command) : (c.sendAll cs).client = c := by
  induction cs with
  | nil => rfl
  | cons command cs ih =>
    have hc := (h.proceeds_send 0 command).2
    rw [sendAll]
    dsimp only
    cases (c.send command).result with
    | error f => exact hc
    | ok _ =>
      dsimp only
      rw [hc, ih]

/-- A query takes no waits away, it only adds its own behind those that are there. -/
lemma Attached.waits_query (h : Attached c) (id : ℕ) (command : Command) (tag : EventTag)
    (wanted : Wanted)
    (limit : Option Number) : ∀ w ∈ c.waits, w ∈ (c.query id command tag wanted limit).1.waits := by
  intro w hw
  cases hc : c.isClosed with
  | true =>
    rw [query_of_isClosed hc]
    exact hw
  | false =>
    rw [h.query_of_isOpen hc]
    cases command.encode <;> exact List.mem_append_left _ hw

/-- What is asked of an attached client, other than to close, takes no waits away.

**Proof sketch.** One case for each request: sending leaves the waits as they are, and waiting or
asking adds one at their end. -/
lemma Attached.waits_call (h : Attached c) (id : ℕ) {request : Request} (hreq : request ≠ .close) :
    ∀ w ∈ c.waits, w ∈ (c.call id request).client.waits := by
  intro w hw
  have hsend (command : Command) : w ∈ (c.send command).client.waits := by
    rw [(h.proceeds_send 0 command).2]
    exact hw
  cases request with
  | send command => exact hsend command
  | sendKey name =>
    rw [call, sendKey]
    cases Key.resolve? name with
    | some key => exact hsend _
    | none => exact hw
  | writeMemory address bytes =>
    rw [call, writeMemory]
    split_ifs
    · exact hw
    · rw [h.client_sendAll]
      exact hw
  | await tag limit =>
    rw [call, await]
    split_ifs
    · exact hw
    · exact List.mem_append_left _ hw
  | dump limit => exact h.waits_query id _ _ _ limit w hw
  | readMemory first last limit =>
    rw [call, readMemory]
    split_ifs
    · exact hw
    · exact h.waits_query id _ _ _ limit w hw
  | readStack limit => exact h.waits_query id _ _ _ limit w hw
  | close => exact absurd rfl hreq

/-- What comes in leaves a call hopeful, if the client stays open.

**Proof sketch.** Induction on what comes in. A chunk is one event, which leaves the call hopeful by
`Hopeful.hear`. The end of the source would close the client, which is open at the end and so was
open all along. -/
lemma Attached.hopeful_run (h : Attached c) {xs : List Happening} (hxs : ∀ x ∈ xs, x.IsOrderly)
    (hopen : (c.run xs).1.isClosed = false) (hc : Hopeful deadline id c trace) :
    Hopeful deadline id (c.run xs).1 (trace ++ (c.run xs).2) := by
  induction xs generalizing c trace with
  | nil => exact (List.append_nil trace).symm ▸ hc
  | cons x xs ih =>
    have hx := hxs x List.mem_cons_self
    have hrest : ∀ y ∈ xs, y.IsOrderly := fun y hy => hxs y (List.mem_cons_of_mem x hy)
    obtain ⟨_, hears, -⟩ := h.hears_happen hx
    obtain ⟨_, hears', -⟩ := hears.attached.hears_run hrest
    have hstays : (c.happen x).client.isClosed = false := hears'.isOpen hopen
    have hfirst : Hopeful deadline id (c.happen x).client (trace ++ (c.happen x).trace) := by
      cases x with
      | received chunk =>
        obtain ⟨ev, hev⟩ := Option.isSome_iff_exists.1 hx
        have hhear := (h.happen_received hev).2
        rw [hears.isOpen hstays, if_neg Bool.false_ne_true] at hhear
        obtain ⟨hclient, htrace⟩ := Prod.mk.inj hhear
        rw [hclient, htrace]
        exact hc.hear ev
      | sourceEnded => exact absurd (hstays.symm.trans (Exchange.happen_sourceEnded h).1) nofun
      | bound | rebound | sinkFailed | formerly | elapsed | called => exact hx.elim
    have hlater := ih hears.attached hrest hopen hfirst
    rw [List.append_assoc] at hlater
    exact hlater

end Client

/-! ## Exchanges -/

namespace Exchange

variable {e : Engine} {x : Exchange} {t : Trace} {hs hs' : List Happening} {id : ℕ}
    {deadline : Number}
  {limit : Option Number}

/-- A client that is open after a happening was open before, as nothing in an exchange binds it
again. -/
lemma Consistent.isOpen_happen (h : Consistent e x t) (y : Happening)
    (hc : (x.happen y).1.client.isClosed = false) : x.client.isClosed = false := by
  cases y with
  | called id request => exact (h.attached.proceeds_called (Nat.ne_add_one id) request).isOpen hc
  | elapsed time => exact (h.attached.proceeds_elapsed 0 time).isOpen hc
  | printed p => exact hc
  | sessionReads n => exact hc
  | clientReads n =>
    obtain ⟨_, hears, -⟩ := h.attached.hears_run fun z hz => h.toClient z (List.mem_of_mem_take hz)
    exact hears.isOpen hc

/-- A client that is open after happenings was open before all of them. -/
lemma Consistent.isOpen_run (h : Consistent e x t) (hs : List Happening)
    (hc : (x.run hs).1.client.isClosed = false) : x.client.isClosed = false := by
  induction hs generalizing x t with
  | nil => exact hc
  | cons y hs ih => exact h.isOpen_happen y (ih (h.happen y).1 hc)

/-- The time of the client after a happening. -/
def Happening.clock (now : Number) : Happening → Number
  | elapsed time => now + time
  | called .. | printed _ | sessionReads _ | clientReads _ => now

/-- What comes in takes no time.

**Proof sketch.** Induction on what comes in: chunks and the end of a source leave the clock as it
is. -/
lemma clock_of_isOrderly {xs : List Client.Happening} (hxs : ∀ y ∈ xs, y.IsOrderly) (now : Number) :
    xs.foldl Client.Happening.clock now = now := by
  induction xs with
  | nil => rfl
  | cons y xs ih =>
    obtain ⟨hy, hrest⟩ := List.forall_mem_cons.1 hxs
    have hstays : y.clock now = now := by
      cases y with
      | received _ | sourceEnded => rfl
      | bound | rebound | sinkFailed | formerly | elapsed | called => exact hy.elim
    rw [List.foldl_cons, hstays, ih hrest]

/-- The clock of the client goes on with the time that goes by, and with nothing else. -/
lemma Consistent.now_happen (h : Consistent e x t) (y : Happening) :
    (x.happen y).1.client.now = y.clock x.client.now := by
  cases y with
  | called id request => exact Client.now_happen x.client (.called id request)
  | elapsed time => exact Client.now_happen x.client (.elapsed time)
  | printed p | sessionReads n => rfl
  | clientReads n =>
    exact (Client.now_run x.client (x.toClient.take n)).1.trans
      (clock_of_isOrderly (fun z hz => h.toClient z (List.mem_of_mem_take hz)) x.client.now)

/-- **One happening** leaves a call hopeful, if the clock has not come to the deadline and the
client stays open.

**Proof sketch.** By what happens. A call other than to close only adds waits. Time that does not
reach the deadline does not end the wait. What the machine prints and what the session reads is not
noticed by the client, and what the client reads is orderly, so it settles the call or leaves its
wait. -/
lemma hopeful_happen (h : Consistent e x t) {y : Happening}
    (htime : deadline.le (y.clock x.client.now) = false) (hclose : ∀ id', y ≠ .called id' .close)
    (hopen : (x.happen y).1.client.isClosed = false) (hc : x.client.Hopeful deadline id t.client) :
    (x.happen y).1.client.Hopeful deadline id (t ++ (x.happen y).2).client := by
  cases y with
  | called id' request =>
    have hw := h.attached.waits_call id' fun he => hclose id' (he ▸ rfl)
    rw [← (h.attached.happen_called id' request).1] at hw
    exact hc.mono (fun w hmem _ => hw w hmem) _
  | elapsed time => exact hc.elapsed h.attached htime
  | printed p | sessionReads n => exact hc.mono (fun _ hw _ => hw) _
  | clientReads n =>
    exact h.attached.hopeful_run (fun z hz => h.toClient z (List.mem_of_mem_take hz)) hopen hc

/-- **Happenings**, one after the other, leave a call hopeful, if the clock does not come to the
deadline and the client stays open.

**Proof sketch.** Induction on the happenings, with `hopeful_happen` as the step. Behind the first
one the clock shows the time that the prefix with it alone gives, so the assumption about all
prefixes is handed on. -/
theorem hopeful_run (h : Consistent e x t)
    (htime : ∀ hs', hs' <+: hs → deadline.le (hs'.foldl Happening.clock x.client.now) = false)
    (hclose : ∀ id', .called id' .close ∉ hs) (hopen : (x.run hs).1.client.isClosed = false)
    (hc : x.client.Hopeful deadline id t.client) :
    (x.run hs).1.client.Hopeful deadline id (t ++ (x.run hs).2).client := by
  induction hs generalizing x t with
  | nil => exact hc.mono (fun _ hw _ => hw) _
  | cons y hs ih =>
    have hy := (h.happen y).1
    have hfirst := hopeful_happen h (htime [y] (List.prefix_append [y] hs))
      (fun id' he => hclose id' (he ▸ List.mem_cons_self)) (hy.isOpen_run hs hopen) hc
    have hrest : ∀ hs', hs' <+: hs →
        deadline.le (hs'.foldl Happening.clock (x.happen y).1.client.now) = false := by
      intro hs' hp
      rw [h.now_happen]
      exact htime (y :: hs') (List.cons_prefix_cons.2 ⟨rfl, hp⟩)
    have hlater := ih hy hrest (fun id' hm => hclose id' (List.mem_cons_of_mem y hm)) hopen hfirst
    rw [trace_append_assoc] at hlater
    exact hlater

/-- Nothing is sent when nobody calls: printing, reading and time write no frames. -/
lemma sent_eq_nil (x : Exchange) (h : ∀ id request, .called id request ∉ hs) : x.sent hs = [] := by
  induction hs generalizing x with
  | nil => rfl
  | cons y hs ih =>
    have hrest := ih (x.happen y).1 fun id request hm => h id request (List.mem_cons_of_mem y hm)
    cases y with
    | called id request => exact absurd List.mem_cons_self (h id request)
    | elapsed | printed | sessionReads | clientReads => exact hrest

/-! ### Reading -/

/-- The answer to a command behind others, if the engine answers it with the event of a query,
stands behind the answers to these. -/
lemma getElem?_answersTo {q : Query} {cs ds : List Command} {c : Command} {ev : Event}
    (h : (e.after cs).answer? c = some ev) (hq : ev.query? = some q) :
    (Engine.answersTo q e (cs ++ c :: ds))[(Engine.answersTo q e cs).length]? = some ev := by
  have hone : Engine.answersTo q (e.after cs) [c] = [ev] := by
    rw [Engine.answersTo, Engine.answers_singleton, h]
    exact List.filter_cons_of_pos (by simpa using hq)
  rw [Engine.answersTo_append, List.getElem?_append_right (Nat.le_refl _), Nat.sub_self,
    ← List.singleton_append, Engine.answersTo_append, hone]
  rfl

/-- A query for memory that an open client sends: its command is written, and it waits.

**Proof sketch.** The command encodes and the client is open, so the query is sent and its wait is
added at the end. That wait is the hope of the call. -/
lemma happen_readMemory {c : Client} (h : c.Attached) (hopen : c.isClosed = false) (id : ℕ)
    {first last : Number} (hr : last.lt first = false)
    (he : (Command.requestMemory first last).Encodes) (trace : List ClientTrace) :
    asked (c.happen (.called id (.readMemory first last limit))).trace =
      [.requestMemory first last] ∧
      (c.happen (.called id (.readMemory first last limit))).client.Hopeful
        (c.now + Wait.delay (limit.getD c.timeout)) id trace := by
  obtain ⟨hclient, htrace⟩ := h.happen_called id (.readMemory first last limit)
  obtain ⟨bytes, he⟩ := he
  have hquery := h.query_of_isOpen hopen id (.requestMemory first last) .memoryResult .bytes limit
  rw [he] at hquery
  have hcall : c.call id (.readMemory first last limit) =
      ⟨{ c with waits := c.waits ++ [c.newWait (some id) .memoryResult .bytes limit] },
        [.sent bytes], .ok ()⟩ := by
    rw [Client.call, Client.readMemory, hr, if_neg Bool.false_ne_true, hquery]
  rw [hclient, htrace, hcall]
  exact ⟨asked_sent he,
    .inl ⟨_, List.mem_append_right _ (List.mem_singleton_self _), rfl, rfl, rfl, rfl⟩⟩

/-- A query that is made is pursued until the end of a run. If it cannot be written it is settled
with a fault. -/
lemma Consistent.pursues_run (h : Consistent e x t) (hid : x.client.tally id t.client = 0)
    {request : Request} {own : Command} {q : Query} (hown : request.command? = some own)
    (hq : own.query? = some q) (hafter : ∀ request', .called id request' ∉ hs) {x' : Exchange}
    {t' : Trace} (hrun : x.run (.called id request :: hs) = (x', t')) :
    Client.Pursues id q (ClientTrace.heard q t.client).length x'.client (t ++ t').client ∧
      (¬ own.Encodes → ∃ f, .settled id (.error f) ∈ (t ++ t').client) := by
  obtain ⟨hcalled, hmade⟩ := h.attached.pursues_called hid hown hq
  have hlater := (((h.happen (.called id request)).1.run hs).2 id hafter).pursues hcalled
  obtain ⟨rfl, rfl⟩ := Prod.mk.inj hrun
  rw [List.append_assoc] at hlater
  refine ⟨hlater, fun hn => ?_⟩
  obtain ⟨f, hf⟩ := hmade.resolve_right fun ⟨bytes, he, _⟩ => hn ⟨bytes, he⟩
  exact ⟨f, List.mem_append_right _ (List.mem_append_left _ hf)⟩

/-- A query for memory that can be written is hopeful behind what happens then, if its time does not
pass and nobody closes the client.

**Proof sketch.** The call is hopeful when it is made, as its wait is the last then, and
`hopeful_run` brings that to the end. -/
lemma Consistent.hopeful_readMemory (h : Consistent e x t) {first last : Number}
    (hr : last.lt first = false) (he : (Command.requestMemory first last).Encodes)
    (htime : ∀ hs', hs' <+: hs → Number.le (x.client.now + Wait.delay (limit.getD x.client.timeout))
      (hs'.foldl Happening.clock x.client.now) = false)
    (hclose : ∀ id', .called id' .close ∉ hs)
    (hopen : (x.run (.called id (.readMemory first last limit) :: hs)).1.client.isClosed = false) :
    (x.run (.called id (.readMemory first last limit) :: hs)).1.client.Hopeful
      (x.client.now + Wait.delay (limit.getD x.client.timeout)) id
      (t ++ (x.run (.called id (.readMemory first last limit) :: hs)).2).client := by
  have hwaits : (x.happen (.called id (.readMemory first last limit))).1.client.Hopeful
      (x.client.now + Wait.delay (limit.getD x.client.timeout)) id
      (t ++ (x.happen (.called id (.readMemory first last limit))).2).client :=
    (happen_readMemory h.attached (h.isOpen_run _ hopen) id hr he _).2
  have hnow := h.now_happen (.called id (.readMemory first last limit))
  have hlater := hopeful_run (h.happen (.called id (.readMemory first last limit))).1
    (fun hs' hp => hnow ▸ htime hs' hp) hclose hopen hwaits
  rw [trace_append_assoc] at hlater
  exact hlater

/-- If the client had heard all answers when it asked for memory, then it has heard the answer to
that next, when the session is still running and nothing is under way.

**Proof sketch.** When nothing is under way, all commands are handled and all answers heard. This
command stands behind those of before, and so does its answer. -/
lemma Consistent.getElem?_heard_readMemory (h : Consistent e x t) {first last : Number}
    (hr : last.lt first = false) (he : (Command.requestMemory first last).Encodes) {data : Bytes}
    (hanswer : (e.after (asked t.client)).answer? (.requestMemory first last) =
      some (.memoryResult data))
    (hheard : (Engine.answersTo .memory e (asked t.client)).length =
      (ClientTrace.heard .memory t.client).length) {x' : Exchange} {t' : Trace}
    (hrun : x.run (.called id (.readMemory first last limit) :: hs) = (x', t'))
    (hrunning : x'.session.outcome = none) (hopen : x'.client.isClosed = false)
    (hall : x'.toSession = [] ∧ x'.toClient = []) :
    (ClientTrace.heard .memory (t ++ t').client)[(ClientTrace.heard .memory t.client).length]? =
      some (.memoryResult data) := by
  obtain rfl := congrArg Prod.fst hrun
  obtain rfl := congrArg Prod.snd hrun
  have hend := (h.run (.called id (.readMemory first last limit) :: hs)).1
  have hhandled := hend.unread hrunning
  rw [hall.1] at hhandled
  have hfirst : asked (x.happen (.called id (.readMemory first last limit))).2.client =
      [.requestMemory first last] :=
    (happen_readMemory h.attached (h.isOpen_run _ hopen) id hr he []).1
  have hasked : asked (t ++ (x.run (.called id (.readMemory first last limit) :: hs)).2).client =
      asked t.client ++ .requestMemory first last ::
        asked ((x.happen (.called id (.readMemory first last limit))).1.run hs).2.client := by
    have hrun : x.run (.called id (.readMemory first last limit) :: hs) =
        (((x.happen (.called id (.readMemory first last limit))).1.run hs).1,
          (x.happen (.called id (.readMemory first last limit))).2 ++
            ((x.happen (.called id (.readMemory first last limit))).1.run hs).2) := rfl
    rw [hrun, client_append, client_append, asked_append, asked_append, hfirst]
    rfl
  rw [hend.heard_eq hopen hall.2, ← hheard, (List.append_nil _).symm.trans hhandled, hasked]
  exact getElem?_answersTo hanswer rfl

/-- **A query for memory** that the engine answers, made when no answer to an earlier one is still
to come: if the session is still running when nothing is under way, and neither has its time passed
nor was the client closed, it was settled with that answer.

**Proof sketch.** The call is pursued to the end, so if it is settled with an event then with the
first of its kind that was heard after it was made, which is the answer. And it is hopeful, so it is
settled or still waits; but the answer has been heard, so it cannot wait any more. -/
lemma Consistent.settled_of_answer (h : Consistent e x t) (hid : x.client.tally id t.client = 0)
    {first last : Number} (hr : last.lt first = false)
    (he : (Command.requestMemory first last).Encodes) {data : Bytes}
    (hanswer : (e.after (asked t.client)).answer? (.requestMemory first last) =
      some (.memoryResult data))
    (hheard : (Engine.answersTo .memory e (asked t.client)).length =
      (ClientTrace.heard .memory t.client).length)
    (hafter : ∀ request, .called id request ∉ hs)
    (htime : ∀ hs', hs' <+: hs → Number.le (x.client.now + Wait.delay (limit.getD x.client.timeout))
      (hs'.foldl Happening.clock x.client.now) = false)
    (hclose : ∀ id', .called id' .close ∉ hs) {x' : Exchange} {t' : Trace}
    (hrun : x.run (.called id (.readMemory first last limit) :: hs) = (x', t'))
    (hrunning : x'.session.outcome = none) (hopen : x'.client.isClosed = false)
    (hall : x'.toSession = [] ∧ x'.toClient = []) (r : Except Fault Answer) :
    .settled id r ∈ (t ++ t').client ↔ r = .ok (.bytes data) := by
  have hown : Request.command? (.readMemory first last limit) = some (.requestMemory first last) :=
    rfl
  have hp := (h.pursues_run hid hown rfl hafter hrun).1
  have hnth := h.getElem?_heard_readMemory hr he hanswer hheard hrun hrunning hopen hall
  obtain rfl := congrArg Prod.fst hrun
  obtain rfl := congrArg Prod.snd hrun
  have hhopeful := h.hopeful_readMemory hr he htime hclose hopen
  have hsettled := hhopeful.resolve_left fun ⟨w, hw, hwait, _⟩ => by
    have hlen := hp.heard ⟨w, hw, hwait⟩
    rw [List.getElem?_eq_none hlen.le] at hnth
    cases hnth
  obtain ⟨a, ha⟩ := hsettled
  obtain ⟨ev, hev, hpart⟩ := hp.settled a ha
  obtain rfl := Option.some.inj (hev.symm.trans hnth)
  obtain rfl : Answer.bytes data = a := Except.ok.inj hpart
  exact ⟨fun hr' => Client.settled_unique hp.tally hr' ha, fun hr' => hr' ▸ ha⟩

/-! ### Writing -/

/-- An open client that is attached sends commands that can be written. -/
lemma result_sendAll {c : Client} (h : c.Attached) (hopen : c.isClosed = false) {cs : List Command}
    (hcs : ∀ command ∈ cs, command.Encodes) : (c.sendAll cs).result = .ok () := by
  induction cs with
  | nil => rfl
  | cons command cs ih =>
    obtain ⟨bytes, he⟩ := hcs command List.mem_cons_self
    rw [Client.sendAll, h.send_of_isOpen hopen, he]
    exact ih fun command' hm => hcs command' (List.mem_cons_of_mem command hm)

/-- What an open client does when it is asked to write bytes that end below the last address: it
sends all commands.

**Proof sketch.** No sum of sixteen-bit numbers is rounded, so the check of the end passes. Then
every command has an encoding, and an open client sends them all. -/
lemma happen_writeMemory {c : Client} (h : c.Attached) (hopen : c.isClosed = false) (id : ℕ) {a : ℕ}
    {data : Bytes} (hfit : a + data.length ≤ 0x10000) :
    (c.happen (.called id (.writeMemory (a : Number) data))).result = .ok () ∧
      c.sends (Request.writeMemory (a : Number) data).commands =
        Script.pokes (a : Number) data := by
  have hlt : Number.lt ((0x10000 : ℕ) : Number) ((a : Number) + (data.length : Number)) =
      false := by
    rw [Number.natCast_add_natCast (by simp only [Number.exactLimit]; omega), Number.lt_whole]
    exact decide_eq_false (by omega)
  have hencodes := Script.encodes_of_mem_pokes hfit
  constructor
  · have hresult : (c.happen (.called id (.writeMemory (a : Number) data))).result =
        (c.writeMemory (a : Number) data).result := rfl
    rw [hresult, Client.writeMemory, hlt, if_neg Bool.false_ne_true]
    exact result_sendAll h hopen hencodes
  · rw [Request.commands, hlt, if_neg Bool.false_ne_true, Client.sends, hopen,
      if_neg Bool.false_ne_true, List.takeWhile_eq_self_iff]
    exact fun command hm => Command.isWritable_iff.2 (hencodes command hm)

/-- Nobody closes the client by another request, made before happenings in which nobody does. -/
lemma close_notMem_cons {request : Request} (hr : request ≠ .close)
    (h : ∀ id, .called id .close ∉ hs) (i : ℕ) :
    ∀ id, .called id .close ∉ .called i request :: hs := by
  intro id hm
  rcases List.mem_cons.1 hm with he | hm
  · exact hr (Happening.called.inj he).2.symm
  · exact h id hm

/-- What an open client sends when it is asked to write bytes that end below the last address, and
nobody calls until later. -/
lemma Faithful.asked_writeMemory {ps : List Printed} (h : Faithful e ps x t)
    (hopen : x.client.isClosed = false) {i a : ℕ} {data : Bytes} (hfit : a + data.length ≤ 0x10000)
    (hmid : ∀ id request, .called id request ∉ hs) :
    asked (x.run (.called i (.writeMemory (a : Number) data) :: hs)).2.client =
      Script.pokes (a : Number) data := by
  have hclose : ∀ id, .called id .close ∉ .called i (.writeMemory (a : Number) data) :: hs :=
    close_notMem_cons (by nofun) (fun id => hmid id .close) i
  rw [(h.run hclose).2, sent, (happen_writeMemory h.attached hopen i hfit).2, sent_eq_nil _ hmid,
    List.append_nil, Script.pokes, Script.map_carried_pokesFrom]

/-- The session of an exchange is running and nothing is under way: the client is open, and the
engine took commands behind all that it was told. -/
lemma Faithful.running {ps : List Printed} (h : Faithful e ps x t)
    (hrunning : x.session.outcome = none) (hall : x.toSession = []) :
    x.client.isClosed = false ∧ (e.after (asked t.client)).terminated = false := by
  refine ⟨Bool.eq_false_iff.2 fun hc => h.isOver hc hrunning, ?_⟩
  have hunread := h.unread hrunning
  rw [hall] at hunread
  have hhandled : commands t.session = asked t.client := (List.append_nil _).symm.trans hunread
  rw [← hhandled, ← h.engine]
  exact (h.coherent.live hrunning).terminated

/-- An exchange is faithful after happenings in which nobody closes the client. -/
lemma Faithful.of_run {ps : List Printed} (h : Faithful e ps x t) {x' : Exchange} {t' : Trace}
    (hrun : x.run hs = (x', t')) (hclose : ∀ id, .called id .close ∉ hs) :
    Faithful e (ps ++ Happening.texts hs) x' (t ++ t') := by
  have hf := (h.run hclose).1
  rw [hrun] at hf
  exact hf

/-- If the engine takes commands behind all that a client asked for, it did so before some of it. -/
lemma terminated_of_asked_append {t t' : Trace}
    (h : (e.after (asked (t ++ t').client)).terminated = false) :
    (e.after (asked t.client)).terminated = false := by
  rw [client_append, asked_append, Engine.after_append] at h
  exact Engine.terminated_of_after h

/-- An address that is not of sixteen bits is the end of no range that can be asked for. -/
lemma not_encodes_requestMemory (first : Number) {n : ℕ} (h : 0xffff < n) :
    ¬ (Command.requestMemory first (n : Number)).Encodes := by
  intro he
  obtain ⟨_, k, -, hk, -, hn⟩ := Command.exists_natCast_of_requestMemory he
  have hsame : (n : Int) = (k : Int) := Number.whole.inj hn
  omega

/-- **Bytes that a client writes** into the memory of a device without overrides.
* A client that is open accepts to write bytes that end with the memory, or before.
* If they end at an address of sixteen bits, and it then asks for them, it gets them: no answer to
  an earlier request for memory may still be to come, the time for which it waits may not pass and
  nobody may close the client until nothing is under way, and the session must be running then.
* If they end with the last byte of 65536, it refuses to ask for them.

**Proof sketch.** The exchange is faithful throughout, so the engine handled the stores of `data`
before the query, and `Engine.answer?_after_append_pokes` gives its answer.
`Consistent.settled_of_answer` brings it to the call. An end of 65536 has no encoding, so that query
is refused when it is made. -/
theorem reads_back_run_start (timeout : Option Number) (program : List (Number × Op)) {size : ℕ}
    (hsize : size ≤ 0x10000) (logCommands : Bool) (limit : Option Number)
    {before mid after : List Happening} {i j a : ℕ} {data : Bytes}
    (hfit : a + data.length ≤ size) (hmid : ∀ id request, .called id request ∉ mid) (hij : i ≠ j)
    (hj : ∀ request, .called j request ∉ before ++ after)
    (hclose : ∀ id, .called id .close ∉ before ++ after) {x₁ x₂ x₃ : Exchange} {t₁ t₂ t₃ : Trace}
    (h₁ : (start timeout (.start (.initial program size {}) logCommands) true).run before =
      (x₁, t₁))
    (h₂ : x₁.run (.called i (.writeMemory (a : Number) data) :: mid) = (x₂, t₂))
    (h₃ : x₂.run (.called j (.readMemory (a : Number) ((a + data.length : ℕ) : Number) limit) ::
      after) = (x₃, t₃)) :
    (x₁.client.isClosed = false →
      (x₁.client.happen (.called i (.writeMemory (a : Number) data))).result = .ok ()) ∧
    (a + data.length ≤ 0xffff →
      (Engine.answersTo .memory (.start (.initial program size {}) logCommands)
        (asked (t₁ ++ t₂).client)).length = (ClientTrace.heard .memory (t₁ ++ t₂).client).length →
      (∀ hs, hs <+: after → Number.le (x₂.client.now + Wait.delay (limit.getD x₂.client.timeout))
        (hs.foldl Happening.clock x₂.client.now) = false) →
      x₃.session.outcome = none → x₃.toSession = [] ∧ x₃.toClient = [] →
      ∀ r, .settled j r ∈ (t₁ ++ t₂ ++ t₃).client ↔ r = .ok (.bytes data)) ∧
    (a + data.length = 0x10000 → ∃ f, ∀ r, .settled j r ∈ (t₁ ++ t₂ ++ t₃).client ↔
      r = .error f) := by
  -- The exchange is faithful at each of the three points in time.
  have hstart := faithful_start timeout (.initial program size {}) logCommands
  have hafter : ∀ request, .called j request ∉ after :=
    fun request hm => hj request (List.mem_append_right _ hm)
  have hcloseAfter : ∀ id, .called id .close ∉ after :=
    fun id hm => hclose id (List.mem_append_right _ hm)
  have hf₁ := hstart.of_run h₁ fun id hm => hclose id (List.mem_append_left _ hm)
  have hf₂ := hf₁.of_run h₂ (close_notMem_cons (by nofun) (fun id => hmid id .close) i)
  have hf₃ := hf₂.of_run h₃ (close_notMem_cons (by nofun) hcloseAfter j)
  -- The call `j` has not been made when it is.
  have hnew : x₂.client.tally j (t₁ ++ t₂).client = 0 := by
    refine hf₁.tally_run (hstart.tally_run rfl (fun request hm => ?_) h₁) (fun request hm => ?_) h₂
    · exact hj request (List.mem_append_left _ hm)
    · rcases List.mem_cons.1 hm with he | hm
      · exact hij (Happening.called.inj he).1.symm
      · exact hmid j request hm
  refine ⟨fun hopen => (happen_writeMemory hf₁.attached hopen i (hfit.trans hsize)).1, ?_, ?_⟩
  · intro hlast hheard htime hrunning hall r
    -- The client is open and the engine takes commands at the end, so they were so before.
    obtain ⟨hopen, hlive⟩ := hf₃.running hrunning hall.1
    have hopen₂ : x₂.client.isClosed = false := hf₂.isOpen_run _ (by rw [h₃]; exact hopen)
    have hopen₁ : x₁.client.isClosed = false := hf₁.isOpen_run _ (by rw [h₂]; exact hopen₂)
    have hlive₁ := terminated_of_asked_append (terminated_of_asked_append hlive)
    have hasked : asked (t₁ ++ t₂).client = asked t₁.client ++ Script.pokes (a : Number) data := by
      have hwritten := hf₁.asked_writeMemory hopen₁ (i := i) (hfit.trans hsize) hmid
      rw [h₂] at hwritten
      rw [client_append, asked_append, hwritten]
    have hplain : (Engine.start (.initial program size {}) logCommands).machine.Plain := rfl
    have hmemory : (Engine.start (.initial program size {}) logCommands).machine.size = size :=
      List.length_replicate
    have hanswer := Engine.answer?_after_append_pokes hplain
      (hmemory.trans_le (hsize.trans (by decide))) (hfit.trans_eq hmemory.symm) hlive₁
    have hr : Number.lt ((a + data.length : ℕ) : Number) (a : Number) = false := by
      rw [Number.lt_whole]
      exact decide_eq_false (by omega)
    exact hf₂.settled_of_answer hnew hr (Command.encodes_requestMemory (by omega) hlast)
      (hasked ▸ hanswer) hheard hafter htime hcloseAfter h₃ hrunning hopen hall r
  · intro hlast
    obtain ⟨hp, hrefused⟩ := hf₂.pursues_run hnew rfl rfl hafter h₃
    obtain ⟨f, hf⟩ := hrefused (not_encodes_requestMemory _ (by omega))
    exact ⟨f, fun r => ⟨fun hr => Client.settled_unique hp.tally hr hf, fun hr => hr ▸ hf⟩⟩

/-- Two bytes are written and read back, in the last millisecond in which this may happen. -/
theorem reads_back_run_start_of_two_bytes :
    ∃ x₁ t₁ x₂ t₂ x₃ t₃, (start none (.start (.initial [] 16 {}) false) true).run [] = (x₁, t₁) ∧
      x₁.run (.called 0 (.writeMemory (1 : ℕ) [7, 8]) :: [.sessionReads 1]) = (x₂, t₂) ∧
      x₂.run (.called 1 (.readMemory (1 : ℕ) (3 : ℕ) none) :: [.sessionReads 1, .elapsed 4999,
        .clientReads 1]) = (x₃, t₃) ∧
      (x₁.client.happen (.called 0 (.writeMemory (1 : ℕ) [7, 8]))).result = .ok () ∧
      ∀ r, .settled 1 r ∈ (t₁ ++ t₂ ++ t₃).client ↔ r = .ok (.bytes [7, 8]) := by
  have hfit : 1 + ([7, 8] : Bytes).length ≤ 16 := by decide
  have hmid : ∀ id request, Happening.called id request ∉ [.sessionReads 1] := by simp
  have hj : ∀ request,
      Happening.called 1 request ∉ [] ++ [.sessionReads 1, .elapsed 4999, .clientReads 1] := by simp
  have hclose : ∀ id,
      Happening.called id .close ∉ [] ++ [.sessionReads 1, .elapsed 4999, .clientReads 1] := by simp
  obtain ⟨hwrite, hread, -⟩ := reads_back_run_start none [] (by decide) false none hfit hmid
    Nat.zero_ne_one hj hclose rfl rfl rfl
  have hprefixes {P : List Happening → Prop}
      (h : ∀ hs ∈ [Happening.sessionReads 1, .elapsed 4999, .clientReads 1].inits, P hs) :
      ∀ hs, hs <+: [Happening.sessionReads 1, .elapsed 4999, .clientReads 1] → P hs :=
    fun hs hp => h hs ((List.mem_inits _ _).2 hp)
  refine ⟨_, _, _, _, _, _, rfl, rfl, rfl, hwrite rfl,
    hread (by decide) (by decide +kernel) (hprefixes (by decide +kernel))
    (by decide +kernel) ⟨List.isEmpty_iff.1 (by decide +kernel),
      List.isEmpty_iff.1 (by decide +kernel)⟩⟩

/-- The last byte of a full memory is written, but it cannot be read. A byte that is read twice, and
written in between, is read as it was before when the first answer has not come in yet. -/
theorem not_reads_back_of_last_byte :
    ((start none (.start (.initial [] 0x10000 {}) false) true).client.happen
        (.called 0 (.writeMemory (0xffff : ℕ) [7]))).result = .ok () ∧
      .settled 1 (.error (.notAddress "Range end" (0x10000 : ℕ))) ∈
        ((start none (.start (.initial [] 0x10000 {}) false) true).run
          [.called 0 (.writeMemory (0xffff : ℕ) [7]),
            .called 1 (.readMemory (0xffff : ℕ) (0x10000 : ℕ) none)]).2.client ∧
      .settled 2 (.ok (.bytes [0])) ∈
        ((start none (.start (.initial [] 16 {}) false) true).run
          [.called 0 (.readMemory (0 : ℕ) (1 : ℕ) none), .sessionReads 1,
            .called 1 (.writeMemory (0 : ℕ) [7]),
            .called 2 (.readMemory (0 : ℕ) (1 : ℕ) none), .sessionReads 2,
              .clientReads 2]).2.client := by
  refine ⟨?_, ?_, ?_⟩ <;> decide +kernel

end Exchange

end DebugWire
