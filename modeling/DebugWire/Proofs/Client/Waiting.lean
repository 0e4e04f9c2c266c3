import DebugWire.Proofs.Client.Attached
import DebugWire.Proofs.Engine.Queries

set_option relaxedAutoImplicit false
set_option autoImplicit false

/-!
# Waiting for an answer

A query whose command was written waits for the next event of the kind that answers it. So it is
settled at most once, and if that is with an answer, with the first event of its kind that the
client has heard since.

## Main definitions

* `DebugWire.ClientTrace.heard` — the events of a kind that a client has heard.
* `DebugWire.Request.command?` — the command of a query.
* `DebugWire.Client.Pursues` — a query that has been made.
* `DebugWire.Client.Keeps` — what leaves a call alone.
* `DebugWire.Client.Hears` — what a client does with what comes in.
* `DebugWire.Client.Makes` — what making a query does.

## Main results

* `DebugWire.Client.Attached.pursues_called` — a query when it is made.
* `DebugWire.Client.Pursues.proceeds`, `DebugWire.Client.Pursues.hear` — what happens to it
  afterwards.
* `DebugWire.Client.Attached.hears_run` — what comes in, one after the other.
-/

namespace DebugWire

/-- The events a client has heard that answer a kind of query, in order. -/
def ClientTrace.heard (q : Query) (trace : List ClientTrace) : List Event :=
  (trace.filterMap event?).filter fun ev => ev.query? = some q

/-- The command of a query; a request that is no query has none. -/
def Request.command? : Request → Option Command
  | dump _ => some .requestDump
  | readMemory first last _ => some (.requestMemory first last)
  | readStack _ => some .requestStack
  | _ => none

namespace Client

open ClientTrace (heard)

variable {c : Client} {id n : ℕ} {q : Query} {trace : List ClientTrace}

/-- The events heard in traces one behind the other. -/
lemma heard_append (trace trace' : List ClientTrace) :
    heard q (trace ++ trace') = heard q trace ++ heard q trace' := by
  rw [heard, List.filterMap_append, List.filter_append]
  rfl

/-- Proceeding, a client hears nothing, so no answer to a query comes in. -/
lemma Proceeds.heard_eq {r : Client × List ClientTrace} (h : Proceeds id c r) (q : Query) :
    heard q r.2 = [] := by
  rw [heard, h.events]
  rfl

/-- A client that hears an event hears that event. -/
lemma filterMap_hear (c : Client) (ev : Event) :
    (c.hear ev).2.filterMap ClientTrace.event? = [ev] :=
  congrArg (ev :: ·) filterMap_ofWaits.2

/-- An event that is heard settles a call with an answer if a wait of that call awaits it. -/
lemma exists_wait_of_settled {ev : Event} {a : Answer} (h : .settled id (.ok a) ∈ (c.hear ev).2) :
    ∃ w ∈ c.waits, w.awaits ev = true ∧ w.call = some id ∧ w.wanted.part ev = .ok a := by
  obtain ⟨w, hw, hs⟩ := List.mem_flatMap.1 ((List.mem_cons.1 h).resolve_left nofun)
  obtain ⟨hmem, hawaits⟩ := List.mem_filter.1 hw
  unfold ClientTrace.ofWait at hs
  split at hs
  case h_1 call hcall =>
    obtain ⟨rfl, ha⟩ := ClientTrace.settled.inj (List.mem_singleton.1 hs)
    exact ⟨w, hmem, hawaits, hcall, ha.symm⟩
  case h_2 => cases hs

/-- The tally of a call after hearing an event, behind what was let out before. -/
lemma tally_hear (c : Client) (ev : Event) (trace : List ClientTrace) :
    tally id (c.hear ev).1 (trace ++ (c.hear ev).2) = tally id c trace := by
  have h := tally_ofWaits id c (fun w => w.awaits ev) fun w => w.wanted.part ev
  rw [tally] at h
  rw [tally, tally, List.countP_append, hear, List.countP_cons_of_neg Bool.false_ne_true,
    Nat.add_left_comm, h, Nat.add_comm]

/-- A call that was settled once was settled in one way.

**Proof sketch.** Of the entries that settle the call there is one at most, so two of them are the
same. -/
lemma settled_unique (h : tally id c trace ≤ 1) {r r' : Except Fault Answer}
    (hr : .settled id r ∈ trace) (hr' : .settled id r' ∈ trace) : r = r' := by
  have hle : (trace.filter (settles id)).length ≤ 1 := by
    rw [← List.countP_eq_length_filter]
    exact (Nat.le_add_left _ _).trans h
  have hmem : ∀ {r}, .settled id r ∈ trace → .settled id r ∈ trace.filter (settles id) :=
    fun hr => List.mem_filter.2 ⟨hr, decide_eq_true rfl⟩
  obtain ⟨x, hx⟩ := List.length_eq_one_iff.1 (le_antisymm hle (List.length_pos_of_mem (hmem hr)))
  rw [hx] at hmem
  exact (ClientTrace.settled.inj ((List.mem_singleton.1 (hmem hr)).trans
    (List.mem_singleton.1 (hmem hr')).symm)).2

/-! ## Queries that were made -/

/-- A client *pursues* a query that was made when `n` events of the kind that answers it had been
heard. Its call was settled at most once. While it waits, it waits for an event of that kind, and
none has been heard since. If it was settled with an answer, that is the event in place `n`. -/
structure Pursues (id : ℕ) (q : Query) (n : ℕ) (c : Client) (trace : List ClientTrace) : Prop where
  /-- The call waits, or was settled, at most once. -/
  tally : tally id c trace ≤ 1
  /-- The call waits for an event of the kind. -/
  waits : ∀ w ∈ c.waits, w.call = some id → w.tag = q.tag ∧ w.wanted = q.wanted
  /-- While it waits, no event of the kind has been heard since. -/
  heard : (∃ w ∈ c.waits, w.call = some id) → (heard q trace).length = n
  /-- It was settled with the first event of the kind heard since. -/
  settled : ∀ a, .settled id (.ok a) ∈ trace →
    ∃ ev, (ClientTrace.heard q trace)[n]? = some ev ∧ q.wanted.part ev = .ok a

/-- **Proceeding**, a client goes on to pursue its queries.

**Proof sketch.** No entry of the trace is heard or settles the call with an answer, and no wait of
the call is added, so each part goes over from before. -/
theorem Pursues.proceeds (h : Pursues id q n c trace) {r : Client × List ClientTrace}
    (hp : Proceeds id c r) :
    Pursues id q n r.1 (trace ++ r.2) := by
  have hheard : ClientTrace.heard q (trace ++ r.2) = ClientTrace.heard q trace := by
    rw [heard_append, hp.heard_eq, List.append_nil]
  exact {
    tally := (tally_append_le hp.tally).trans h.tally
    waits := fun w hw hid => h.waits w (hp.waits w hw hid) hid
    heard := fun ⟨w, hw, hid⟩ => by
      rw [hheard]
      exact h.heard ⟨w, hp.waits w hw hid, hid⟩
    settled := fun a ha => by
      rw [hheard]
      exact h.settled a ((List.mem_append.1 ha).resolve_right (hp.settled a)) }

/-- **Hearing an event** of its kind settles a query that waits, and an event of another kind does
not.

**Proof sketch.** The call waits for the events of its kind. Such an event ends its wait and settles
it, with the event at the place where the number of those heard before was; another one adds nothing
to those heard of the kind. What it was settled with before stays at its place. -/
theorem Pursues.hear (h : Pursues id q n c trace) (ev : Event) :
    Pursues id q n (c.hear ev).1 (trace ++ (c.hear ev).2) := by
  have hheard : ClientTrace.heard q (trace ++ (c.hear ev).2) =
      ClientTrace.heard q trace ++ [ev].filter (fun ev => ev.query? = some q) := by
    rw [heard_append, ClientTrace.heard, ClientTrace.heard, filterMap_hear]
  -- The waits of the call await the events of the kind.
  have hawaits : ∀ w ∈ c.waits, w.call = some id → (w.awaits ev = true ↔ ev.query? = some q) := by
    intro w hw hid
    rw [Event.query?_eq_some_iff, Wait.awaits, decide_eq_true_eq, (h.waits w hw hid).1]
  have hold : ∀ a, .settled id (.ok a) ∈ trace →
      ∃ ev', (ClientTrace.heard q (trace ++ (c.hear ev).2))[n]? = some ev' ∧
        q.wanted.part ev' = .ok a := by
    intro a ha
    obtain ⟨ev', hn, hpart⟩ := h.settled a ha
    refine ⟨ev', ?_, hpart⟩
    rw [hheard, List.getElem?_append_left (List.getElem?_eq_some_iff.1 hn).1]
    exact hn
  refine ⟨(tally_hear c ev trace).trans_le h.tally,
    fun w hw => h.waits w (List.mem_filter.1 hw).1, ?_, fun a ha => ?_⟩
  · rintro ⟨w, hw, hid⟩
    obtain ⟨hmem, hnot⟩ := List.mem_filter.1 hw
    have hq : ¬ ev.query? = some q := fun hq => by
      rw [(hawaits w hmem hid).2 hq] at hnot
      cases hnot
    rw [hheard, List.filter_cons_of_neg (by simpa using hq), List.filter_nil, List.append_nil]
    exact h.heard ⟨w, hmem, hid⟩
  · refine (List.mem_append.1 ha).elim (hold a) fun ha => ?_
    obtain ⟨w, hw, haw, hid, hpart⟩ := exists_wait_of_settled ha
    have hq := (hawaits w hw hid).1 haw
    refine ⟨ev, ?_, (h.waits w hw hid).2 ▸ hpart⟩
    rw [hheard, List.filter_cons_of_pos (by simpa using hq), List.filter_nil,
      ← h.heard ⟨w, hw, hid⟩, List.getElem?_concat_length]

/-- What a client does *keeps* the call `id` if it leaves alone a query that is pursued, and makes
no such call. -/
structure Keeps (id : ℕ) (c : Client) (result : Client × List ClientTrace) : Prop where
  /-- The call does not wait, and is not settled, more often. -/
  tally : ∀ trace, Client.tally id result.1 (trace ++ result.2) ≤ Client.tally id c trace
  /-- It goes on to be pursued. -/
  pursues : ∀ {q n trace}, Pursues id q n c trace → Pursues id q n result.1 (trace ++ result.2)

/-- Doing nothing keeps each call: it is neither settled nor given up. -/
lemma keeps_nil (id : ℕ) (c : Client) : Keeps id c (c, []) where
  tally trace := by rw [List.append_nil]
  pursues h := by rw [List.append_nil]; exact h

/-- What keeps a call, and then does so again, keeps it. -/
lemma Keeps.append {r r' : Client × List ClientTrace} (h : Keeps id c r) (h' : Keeps id r.1 r') :
    Keeps id c (r'.1, r.2 ++ r'.2) where
  tally trace := by
    rw [← List.append_assoc]
    exact (h'.tally _).trans (h.tally trace)
  pursues hp := by
    rw [← List.append_assoc]
    exact h'.pursues (h.pursues hp)

/-- Proceeding keeps the call, as it settles it at most with a fault. -/
lemma Proceeds.keeps {r : Client × List ClientTrace} (h : Proceeds id c r) : Keeps id c r :=
  ⟨fun _ => tally_append_le h.tally, fun hp => hp.proceeds h⟩

/-! ## What comes in -/

/-- The event that a happening brings. -/
def Happening.event? : Happening → Option Event
  | received chunk => Event.format.ofChunk? chunk
  | _ => none

/-- The events that happenings bring, in order. -/
def Happening.events (xs : List Happening) : List Event := xs.filterMap event?

/-- What comes in is *orderly*: a chunk holds one event. -/
def Happening.IsOrderly : Happening → Prop
  | received chunk => (Event.format.ofChunk? chunk).isSome = true
  | sourceEnded => True
  | _ => False

/-- What a client has done when it has *heard* events: it wrote nothing, and keeps each call. -/
structure Hears (c : Client) (evs : List Event) (result : Client × List ClientTrace) : Prop where
  /-- It is attached. -/
  attached : Attached result.1
  /-- It is open only if it was before. -/
  isOpen : result.1.isClosed = false → c.isClosed = false
  /-- It has written nothing. -/
  sent : ∀ bytes, .sent bytes ∉ result.2
  /-- It has heard the events. -/
  events : result.2.filterMap ClientTrace.event? = evs
  /-- It keeps each call. -/
  keeps : ∀ id, Keeps id c result

/-- Hearing nothing leaves an attached client as it is. -/
lemma Attached.hears_nil (h : Attached c) : Hears c [] (c, []) :=
  ⟨h, fun hc => hc, fun _ => List.not_mem_nil, rfl, fun id => keeps_nil id c⟩

/-- Hearing events and then others is hearing all of them, in this order. -/
lemma Hears.append {evs evs' : List Event} {r r' : Client × List ClientTrace} (h : Hears c evs r)
    (h' : Hears r.1 evs' r') : Hears c (evs ++ evs') (r'.1, r.2 ++ r'.2) where
  attached := h'.attached
  isOpen hc := h.isOpen (h'.isOpen hc)
  sent bytes hb := (List.mem_append.1 hb).elim (h.sent bytes) (h'.sent bytes)
  events := by rw [List.filterMap_append, h.events, h'.events]
  keeps id := (h.keeps id).append (h'.keeps id)

/-- What comes in: an open client hears the event that it brings, and a closed one hears nothing.

**Proof sketch.** An open client hears the event of a chunk. The end of the source brings none, and
nothing else comes in. -/
lemma Attached.hears_happen (h : Attached c) {x : Happening} (hx : x.IsOrderly) :
    ∃ evs, Hears c evs ((c.happen x).client, (c.happen x).trace) ∧
      (c.isClosed = false → evs = x.event?.toList) ∧ (c.isClosed = true → evs = []) := by
  cases x with
  | received chunk =>
    obtain ⟨ev, hev⟩ := Option.isSome_iff_exists.1 hx
    obtain ⟨ha, hr⟩ := h.happen_received hev
    rcases Bool.eq_false_or_eq_true c.isClosed with hc | hc
    · rw [if_pos hc] at hr
      rw [hr]
      exact ⟨[], h.hears_nil, fun hn => absurd (hc.symm.trans hn) nofun, fun _ => rfl⟩
    · rw [if_neg (Bool.eq_false_iff.1 hc)] at hr
      rw [hr]
      refine ⟨[ev], ?_, fun _ => ?_, fun hn => absurd (hc.symm.trans hn) nofun⟩
      · exact {
          attached := h.hear hc ev
          isOpen := fun _ => hc
          sent := fun bytes hb =>
            filterMap_ofWaits.1 bytes ((List.mem_cons.1 hb).resolve_left nofun)
          events := filterMap_hear c ev
          keeps := fun id => ⟨fun trace => (tally_hear c ev trace).le, fun hp => hp.hear ev⟩ }
      · rw [Happening.event?, hev]
        rfl
  | sourceEnded =>
    refine ⟨[], ?_, fun _ => rfl, fun _ => rfl⟩
    exact {
      attached := (h.proceeds_sourceEnded 0).1.attached
      isOpen := (h.proceeds_sourceEnded 0).1.isOpen
      sent := (h.proceeds_sourceEnded 0).2
      events := (h.proceeds_sourceEnded 0).1.events
      keeps := fun id => (h.proceeds_sourceEnded id).1.keeps }
  | bound | rebound | sinkFailed | formerly | elapsed | called => exact hx.elim

/-- **What comes in**, one after the other: a client hears the first of the events that it brings,
and all of them if it is not closed afterwards. When it is closed it hears none.

**Proof sketch.** Induction on what comes in. A client does not open again, so it hears events up to
the moment when it is closed, and none behind that. -/
theorem Attached.hears_run (h : Attached c) {xs : List Happening} (hxs : ∀ x ∈ xs, x.IsOrderly) :
    ∃ evs, Hears c evs (c.run xs) ∧ evs <+: Happening.events xs ∧
      ((c.run xs).1.isClosed = false → evs = Happening.events xs) ∧
      (c.isClosed = true → evs = []) := by
  induction xs generalizing c with
  | nil => exact ⟨[], h.hears_nil, List.nil_prefix, fun _ => rfl, fun _ => rfl⟩
  | cons x xs ih =>
    obtain ⟨evs, hh, hopen, hclosed⟩ := h.hears_happen (hxs x List.mem_cons_self)
    obtain ⟨evs', hh', hprefix, hall, hnone⟩ := ih hh.attached fun y hy =>
      hxs y (List.mem_cons_of_mem x hy)
    have hevents : Happening.events (x :: xs) = x.event?.toList ++ Happening.events xs := by
      rw [Happening.events, List.filterMap_cons]
      cases x.event? <;> rfl
    have hstays : c.isClosed = true → (c.happen x).client.isClosed = true := fun hc =>
      eq_true_of_ne_false fun hn => absurd (hc.symm.trans (hh.isOpen hn)) nofun
    refine ⟨evs ++ evs', hh.append hh', ?_, fun hc => ?_, fun hc => ?_⟩
    · rcases Bool.eq_false_or_eq_true c.isClosed with hc | hc
      · rw [hclosed hc, hnone (hstays hc)]
        exact List.nil_prefix
      · rw [hopen hc, hevents, List.prefix_append_right_inj]
        exact hprefix
    · rw [hopen (hh.isOpen (hh'.isOpen hc)), hall hc, hevents]
    · rw [hclosed hc, hnone (hstays hc)]
      rfl

/-! ## Making a query -/

/-- A call that was neither made nor settled has no wait. -/
lemma call_ne_of_tally (h : tally id c trace = 0) : ∀ w ∈ c.waits, w.call ≠ some id := by
  have hw := List.countP_eq_zero.1 (Nat.eq_zero_of_add_eq_zero_right h)
  simpa using hw

/-- A call that was neither made nor settled was not settled. -/
lemma settled_notMem_of_tally (h : tally id c trace = 0) (r : Except Fault Answer) :
    .settled id r ∉ trace := by
  intro hr
  have hs := List.countP_eq_zero.1 (Nat.eq_zero_of_add_eq_zero_left h) _ hr
  simp [settles] at hs

/-- A query that is refused is settled with a fault, and its call does not wait.

**Proof sketch.** The call has not been settled before, and no wait is its own, so it is settled
once, with the fault. -/
lemma pursues_refused (h : tally id c trace = 0) {c' : Client}
    (hc' : ∀ w ∈ c'.waits, w.call ≠ some id)
    (f : Fault) (q : Query) (n : ℕ) : Pursues id q n c' (trace ++ [.settled id (.error f)]) where
  tally := by
    have hw : c'.waits.countP (fun w => w.call = some id) = 0 :=
      List.countP_eq_zero.2 (by simpa using hc')
    rw [tally] at h ⊢
    rw [hw, List.countP_append, Nat.eq_zero_of_add_eq_zero_left h]
    simp [settles]
  waits w hw hid := absurd hid (hc' w hw)
  heard := fun ⟨w, hw, hid⟩ => absurd hid (hc' w hw)
  settled a ha := (List.mem_append.1 ha).elim (fun ha => absurd ha (settled_notMem_of_tally h _))
    fun ha => nomatch List.mem_singleton.1 ha

/-- A query whose command is written waits for the next event of its kind.

**Proof sketch.** The call has had no wait and was not settled, since its tally is zero. So its one
wait is the new one, and no event of the kind was heard after that was made. -/
lemma pursues_sent (h : tally id c trace = 0) (q : Query) (limit : Option Number) (bytes : Bytes) :
    Pursues id q (heard q trace).length
      { c with waits :=
        c.waits ++ [c.newWait (some id) q.tag q.wanted limit] } (trace ++ [.sent bytes]) where
  tally := by
    rw [tally] at h ⊢
    rw [List.countP_append, List.countP_append, Nat.eq_zero_of_add_eq_zero_left h,
      Nat.eq_zero_of_add_eq_zero_right h]
    simp [newWait, settles]
  waits w hw hid := by
    rcases List.mem_append.1 hw with hw | hw
    · exact absurd hid (call_ne_of_tally h w hw)
    · rw [List.mem_singleton.1 hw]
      exact ⟨rfl, rfl⟩
  heard _ := by rw [heard_append, ClientTrace.heard, List.length_append]; rfl
  settled a ha := (List.mem_append.1 ha).elim (fun ha => absurd ha (settled_notMem_of_tally h _))
    fun ha => nomatch List.mem_singleton.1 ha

/-- What making a query does: it is refused and nobody waits for it, or its command is written and
it waits for the event that answers it. -/
inductive Makes (id : ℕ) (command : Command) (q : Query) (c : Client) :
    Client → List ClientTrace → Prop
  /-- It is refused. -/
  | refused {c' : Client} (f : Fault) (waits : ∀ w ∈ c'.waits, w ∈ c.waits ∨ w.call = none) :
      Makes id command q c c' [.settled id (.error f)]
  /-- Its command is written. -/
  | sent {bytes : Bytes} (limit : Option Number) (frame : command.encode = .ok bytes) :
      Makes id command q c
        { c with waits := c.waits ++ [c.newWait (some id) q.tag q.wanted limit] } [.sent bytes]

/-- Asking the device something makes a query, which is sent or refused. -/
lemma Attached.query_makes (h : Attached c) (id : ℕ) (command : Command) (q : Query)
    (limit : Option Number) :
    Makes id command q c (c.query id command q.tag q.wanted limit).1
      (c.query id command q.tag q.wanted limit).2 := by
  rcases h.query_cases id command q.tag q.wanted limit with
    ⟨bytes, -, he, hq⟩ | ⟨f, -, hq⟩ | ⟨f, -, hq⟩ <;>
    rw [hq]
  · exact .sent limit he
  · refine .refused f fun w hw => (List.mem_append.1 hw).imp_right fun hw => ?_
    rw [List.mem_singleton.1 hw]
    rfl
  · exact .refused f fun w hw => .inl hw

/-- A request that has the command of a query makes that query.

**Proof sketch.** A range that is out of order is refused, which leaves no wait behind; every other
request with a command of a query makes it by `query_makes`. -/
lemma Attached.call_makes (h : Attached c) (id : ℕ) {request : Request} {command : Command}
    (hr : request.command? = some command) (hq : command.query? = some q) :
    Makes id command q c (c.call id request).client (c.call id request).trace := by
  cases request with
  | dump limit =>
    obtain rfl := Option.some.inj hr
    obtain rfl := Option.some.inj hq
    exact h.query_makes id _ .dump limit
  | readStack limit =>
    obtain rfl := Option.some.inj hr
    obtain rfl := Option.some.inj hq
    exact h.query_makes id _ .stack limit
  | readMemory first last limit =>
    obtain rfl := Option.some.inj hr
    obtain rfl := Option.some.inj hq
    simp only [call, readMemory]
    split_ifs
    · exact .refused _ fun w hw => .inl hw
    · exact h.query_makes id _ .memory limit
  | _ => cases hr

/-- **A query that is made** is pursued from then on. It is settled with a fault at once, or all
that is written is the frame of its command.

**Proof sketch.** A call makes its query in one of two ways. It is refused, and then it is settled
at once and no wait is its own, or it is sent, and then only the frame is written and its wait is
the last. -/
theorem Attached.pursues_called (h : Attached c) (hid : tally id c trace = 0) {request : Request}
    {command : Command} (hr : request.command? = some command) (hq : command.query? = some q) :
    Pursues id q (heard q trace).length (c.happen (.called id request)).client
      (trace ++ (c.happen (.called id request)).trace) ∧
    ((∃ f, .settled id (.error f) ∈ (c.happen (.called id request)).trace) ∨
      ∃ bytes, command.encode = .ok bytes ∧ (c.happen (.called id request)).trace =
        [.sent bytes]) := by
  rw [(h.happen_called id request).1, (h.happen_called id request).2]
  have hmakes := h.call_makes id hr hq
  generalize (c.call id request).client = c', (c.call id request).trace = trace' at hmakes ⊢
  cases hmakes with
  | refused f waits =>
    refine ⟨pursues_refused hid (fun w hmem => ?_) f q _, .inl ⟨f, List.mem_singleton_self _⟩⟩
    rcases waits w hmem with hw | hw
    · exact call_ne_of_tally hid w hw
    · rw [hw]
      exact nofun
  | sent limit frame => exact ⟨pursues_sent hid q limit _, .inr ⟨_, frame, rfl⟩⟩

end Client

end DebugWire
