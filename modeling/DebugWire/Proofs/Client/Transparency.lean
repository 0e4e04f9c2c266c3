import DebugWire.Proofs.Client.Sending
import DebugWire.Proofs.Session.Relaying

set_option relaxedAutoImplicit false
set_option autoImplicit false

/-!
# Exchanges as the engine alone

A client that talks to a session might as well talk to the engine of that session. The session
handles the commands that the client sends, as their frames carry them and in the order in which it
sends them, up to the first that brings the engine to its end. The client hears the events of the
engine, in the order in which the engine lets them out, each once and as it was. When the session
has ended, and all of them are heard, the client tells that its link is gone, and refuses to send
more.

This holds as long as the client is not closed by a caller. What is under way between the two may
take any time.

## Main definitions

* `DebugWire.Exchange.sent` — the commands that a client sends in a run.
* `DebugWire.Exchange.Transparent` — what a client and a session that talk to each other have done.
* `DebugWire.Exchange.Faithful` — what holds of an exchange at any time, as long as no caller closes
  the client.

## Main results

* `DebugWire.Exchange.Faithful.happen`, `DebugWire.Exchange.Faithful.run` — what happenings keep.
* `DebugWire.Exchange.transparent_run_start` — a client and a session from their start.
-/

namespace DebugWire.Exchange

open ClientTrace (asked Silent Outgoing)
open SessionTrace (commands written events writes)

/-! ## Happenings -/

namespace Happening

/-- The text that the machine prints by itself. -/
def text? : Happening → Option Printed
  | printed p => some p
  | _ => none

/-- The texts that the machine prints by itself, in order. -/
def texts (hs : List Happening) : List Printed := hs.filterMap text?

end Happening

/-- The commands that a client sends in a run, in order. -/
def sent (x : Exchange) : List Happening → List Command
  | [] => []
  | .called id request :: hs =>
    x.client.sends request.commands ++ sent (x.happen (.called id request)).1 hs
  | h :: hs => sent (x.happen h).1 hs

/-! ## Faithful exchanges -/

/-- What holds of an exchange at any time, as long as no caller closes the client, when its engine
was `e`, the machine has printed the texts `ps` by itself, and it has let out the trace `t`. -/
structure Faithful (e : Engine) (ps : List Printed) (x : Exchange) (t : Trace) :
    Prop extends Consistent e x t where
  coherent : Session.Coherent true x.session
  /-- The session has not lost a stream. -/
  linked : x.session.outcome ≠ some .disconnected
  /-- Only chunks are under way to the session. -/
  chunks : ∀ y ∈ x.toSession, ∃ chunk, y = .received chunk
  /-- The commands are handled up to the first that brings the engine to its end. -/
  heeded : e.heeded (commands t.session) = commands t.session
  yields : e.Yields (commands t.session) ps x.session.engine (events t.session)
  /-- Each event that the session has let out is a chunk that it has written. -/
  written : written t.session = events t.session
  /-- Chunks are under way to the client, and behind them the end, if the session is over. A client
  that is closed has had them all. -/
  ending : ∃ chunks n, x.toClient = chunks.map .received ++ .replicate n .sourceEnded ∧
    (x.session.outcome = none → n = 0) ∧
    if x.client.isClosed then chunks = [] ∧ x.session.outcome ≠ none
    else x.session.outcome ≠ none → n ≠ 0
  /-- No bytes were taken for no event. -/
  sane : ∀ f, .malformed f ∉ t.client
  /-- A client that is open has not told that its link is gone. A client that is closed has told so
  once, behind the last event. -/
  closing : if x.client.isClosed then
      ∃ before after, t.client = before ++ .closed :: after ∧ .closed ∉ before ∧
        before.filterMap ClientTrace.event? = events t.session ∧ Silent after
    else .closed ∉ t.client

variable {e : Engine} {ps : List Printed} {x : Exchange} {t : Trace}

/-- An exchange is faithful at its start.

**Proof sketch.** Nothing has been sent, written or heard, so both traces are empty and the engine
is that of the start. -/
lemma faithful_start (timeout : Option Number) (machine : Machine) (logCommands : Bool) :
    Faithful (.start machine logCommands) []
      (start timeout (.start machine logCommands) true) ⟨[], []⟩ where
  toConsistent := consistent_start timeout (.start machine logCommands) true rfl
  coherent := Session.coherent_start machine logCommands true none
  linked := nofun
  chunks := fun _ hy => absurd hy List.not_mem_nil
  heeded := rfl
  yields := Engine.yields_nil _
  written := rfl
  ending := ⟨[], 0, rfl, fun _ => rfl, fun hn => absurd rfl hn⟩
  sane := fun _ => List.not_mem_nil
  closing := List.not_mem_nil

/-! ### The client at work -/

/-- A silent trace tells neither of bytes that are no event nor that a link is gone, and of no
event. -/
lemma notMem_of_silent {trace : List ClientTrace} (h : Silent trace) :
    (∀ f, .malformed f ∉ trace) ∧ .closed ∉ trace ∧ trace.filterMap ClientTrace.event? = [] := by
  refine ⟨fun f hf => ?_, fun hc => ?_, List.filterMap_eq_nil_iff.2 fun y hy => ?_⟩
  · exact absurd (h _ hf).1 nofun
  · exact absurd (h _ hc).2 nofun
  · have hy' := (h y hy).1
    cases y with
    | event ev => cases hy'
    | _ => rfl

/-- The client writes, and settles calls.

**Proof sketch.** Nothing outgoing is an event or the end, so what the client has heard and whether
it is closed stay. What it writes comes in on the input of the session in chunks. -/
lemma Faithful.clientDoes (h : Faithful e ps x t) {y : Client.Happening}
    (hc : Consistent e (x.clientDoes y).1 (t ++ (x.clientDoes y).2))
    (hclosed : (x.client.happen y).client.isClosed = x.client.isClosed)
    (hout : Outgoing (x.client.happen y).trace) :
    Faithful e ps (x.clientDoes y).1 (t ++ (x.clientDoes y).2) := by
  obtain ⟨hsane, hopen, -⟩ := notMem_of_silent hout.silent
  have hclient : (x.clientDoes y).2 = ⟨(x.client.happen y).trace, []⟩ := rfl
  have hafter : (x.clientDoes y).1.client.isClosed = x.client.isClosed := hclosed
  rw [hclient] at hc ⊢
  exact {
    toConsistent := hc
    coherent := h.coherent
    linked := h.linked
    chunks := fun z hz => (List.mem_append.1 hz).elim (h.chunks z) (hout.exists_received z)
    heeded := by
      rw [session_append, List.append_nil]
      exact h.heeded
    yields := by
      rw [session_append, List.append_nil]
      exact h.yields
    written := by
      rw [session_append, List.append_nil]
      exact h.written
    ending := by
      rw [hafter]
      exact h.ending
    sane := fun f hf => (List.mem_append.1 hf).elim (h.sane f) (hsane f)
    closing := by
      have hclosing := h.closing
      rw [hafter, session_append, List.append_nil, client_append]
      split_ifs at hclosing ⊢ with hx
      · obtain ⟨before, after, ht, hb, hevents, hafter⟩ := hclosing
        refine ⟨before, after ++ (x.client.happen y).trace, by rw [ht, List.append_assoc]; rfl, hb,
          hevents, ?_⟩
        exact fun z hz => (List.mem_append.1 hz).elim (hafter z) (hout.silent z)
      · exact fun hm => (List.mem_append.1 hm).elim hclosing hopen }

/-! ### The session at work -/

/-- The output of a coherent session that serves has ended exactly if the session is over. -/
lemma isEnded_iff_of_coherent {s : Session} (h : Session.Coherent true s) (hs : s.Serving) :
    s.output.isEnded = true ↔ s.outcome ≠ none := by
  have hf : s.output.hasFailed = false := by
    rcases hs.output with ho | ho <;> rw [ho] <;> rfl
  have hends : s.output.isEnded = true ↔ (true = true ∧ s.outcome ≠ none) ∧
      s.output.hasFailed = false := h.output
  rw [hends, and_iff_left hf, and_iff_right rfl]

/-- What the client sees of writes are chunks, and the end behind them. -/
lemma answers_eq (chunks : List Bytes) (ended : Bool) :
    Pair.answers chunks ended = chunks.map .received ++ .replicate ended.toNat .sourceEnded := by
  cases ended <;> rfl

/-- When the client is closed the session is over. -/
lemma Faithful.isOver (h : Faithful e ps x t) (hc : x.client.isClosed = true) :
    x.session.outcome ≠ none := by
  obtain ⟨chunks, n, -, -, hend⟩ := h.ending
  rw [if_pos hc] at hend
  exact hend.2

/-- When the session has relayed its engine, chunks and ends of the source are under way to the
client.

**Proof sketch.** A session that runs on writes more chunks, and the end behind them if it is over
now. One that was over already writes none, but its output has ended still. -/
lemma Faithful.ending_of_relayed (h : Faithful e ps x t) {hs : List Session.Happening}
    {r : Session × List SessionTrace} (hr : Session.Relayed x.session hs r) :
    ∃ chunks n, x.toClient ++ Pair.answers (writes r.2) r.1.output.isEnded =
      chunks.map .received ++ .replicate n .sourceEnded ∧
      (r.1.outcome = none → n = 0) ∧
      if x.client.isClosed then chunks = [] ∧ r.1.outcome ≠ none
      else r.1.outcome ≠ none → n ≠ 0 := by
  obtain ⟨chunks, n, hto, hrunning, hend⟩ := h.ending
  have hended := isEnded_iff_of_coherent hr.coherent hr.serving
  rw [hto, answers_eq]
  by_cases ho : x.session.outcome = none
  · refine ⟨chunks ++ writes r.2, r.1.output.isEnded.toNat, ?_, fun hn => ?_, ?_⟩
    · rw [hrunning ho, List.map_append]
      simp
    · rw [Bool.eq_false_iff.2 fun ht => hended.1 ht hn]
      rfl
    · split_ifs at hend ⊢
      · exact absurd ho hend.2
      · intro hn
        rw [hended.2 hn]
        exact nofun
  · obtain ⟨houtcome, -, -, hwrites⟩ := hr.isOver ho
    refine ⟨chunks, n + 1, ?_, fun hn => absurd (houtcome ▸ hn) ho, ?_⟩
    · rw [hwrites, hended.2 (houtcome ▸ ho), List.replicate_succ']
      simp
    · split_ifs at hend ⊢
      · exact ⟨hend.1, houtcome ▸ ho⟩
      · exact fun _ => n.succ_ne_zero

/-- What a client tells of its link agrees with the session when that has relayed its engine: a
session behind its end has let out no more events. -/
lemma Faithful.closing_of_relayed (h : Faithful e ps x t) {hs : List Session.Happening}
    {r : Session × List SessionTrace} (hr : Session.Relayed x.session hs r) :
    if x.client.isClosed then
      ∃ before after, t.client = before ++ .closed :: after ∧ .closed ∉ before ∧
        before.filterMap ClientTrace.event? = events t.session ++ events r.2 ∧ Silent after
    else .closed ∉ t.client := by
  have hclosing := h.closing
  split_ifs at hclosing ⊢ with hclosed
  · have hsilent : events r.2 = [] := by
      rw [← hr.written, (hr.isOver (h.isOver hclosed)).2.2.2]
      rfl
    rw [hsilent, List.append_nil]
    exact hclosing
  · exact hclosing

/-- The session takes what comes in on its input, and what the machine prints by itself.

**Proof sketch.** By `Session.relayed_run`. A session that runs on hands on the commands of the
chunks, and one that was over already handles nothing. What is under way to the client and what that
tells of its link are the two lemmas about a session that has relayed its engine. -/
lemma Faithful.sessionDoes (h : Faithful e ps x t) {hs rest : List Session.Happening}
    (hhs : ∀ y ∈ hs, y.IsOrderly ∧ y ≠ .inputEnded)
    (hrest : ∀ y ∈ rest, ∃ chunk, y = .received chunk)
    (hc : Consistent e (Exchange.sessionDoes { x with toSession := rest } hs).1
      (t ++ (Exchange.sessionDoes { x with toSession := rest } hs).2)) :
    Faithful e (ps ++ Session.Happening.texts hs)
      (Exchange.sessionDoes { x with toSession := rest } hs).1
      (t ++ (Exchange.sessionDoes { x with toSession := rest } hs).2) := by
  have hr := Session.relayed_run h.serving h.coherent h.linked hhs
  have hsession :
      (Exchange.sessionDoes { x with toSession := rest } hs).2 = ⟨[], (x.session.run hs).2⟩ := rfl
  rw [hsession] at hc ⊢
  exact {
    toConsistent := hc
    coherent := hr.coherent
    linked := hr.linked
    chunks := hrest
    heeded := by
      rw [session_append, SessionTrace.commands_append]
      by_cases ho : x.session.outcome = none
      · have hlive := (h.coherent.live ho).terminated
        rw [h.engine] at hlive
        rw [Engine.heeded_append_of_live h.heeded hlive, ← h.engine, hr.heeded ho]
      · rw [(hr.isOver ho).2.2.1, List.append_nil, h.heeded]
    yields := by
      rw [session_append, SessionTrace.commands_append, SessionTrace.events_append]
      exact h.yields.append hr.yields
    written := by
      rw [session_append, written_append, SessionTrace.events_append, h.written]
      exact congrArg _ hr.written
    ending := h.ending_of_relayed hr
    sane := by
      rw [client_append, List.append_nil]
      exact h.sane
    closing := by
      rw [client_append, List.append_nil, session_append, SessionTrace.events_append]
      exact h.closing_of_relayed hr }

/-! ### What comes in -/

/-- The end of the source closes an attached client, which tells so unless it was closed before.

**Proof sketch.** A closed client listens to no source any more. An open one loses its link, and the
waits that end with it are silent. -/
lemma happen_sourceEnded {c : Client} (h : c.Attached) :
    (c.happen .sourceEnded).client.isClosed = true ∧
      ∃ after, Silent after ∧
      (c.happen .sourceEnded).trace = if c.isClosed then [] else .closed :: after := by
  have hends : c.sourceEnded.1.isClosed = true ∧ c.sourceEnded.2 = if c.isClosed then []
      else .closed :: c.waits.flatMap fun w =>
        ClientTrace.ofWait w (.error (.closedWhileWaiting w.tag)) := by
    obtain ⟨timeout, reader, link, former, isBound, isClosed, waits, now⟩ := c
    cases isClosed with
    | true =>
      obtain ⟨-, isOpen, sink, hl, -⟩ := h.isOver rfl
      obtain rfl : link = some ⟨0, isOpen, sink⟩ := hl
      cases isOpen <;> exact ⟨rfl, rfl⟩
    | false =>
      obtain rfl : link = some ⟨1, true, .fresh none⟩ := (h.isOpen rfl).2
      exact ⟨rfl, rfl⟩
  obtain ⟨hclient, htrace⟩ :=
    Client.happen_of_attached (x := .sourceEnded) (h.proceeds_end 0).attached
  rw [hclient, htrace]
  exact ⟨hends.1, _, ClientTrace.silent_ofWaits c.waits _, hends.2⟩

/-- What the client has taken keeps an exchange faithful if it is told of the end exactly when the
client is closed.

**Proof sketch.** The session is not concerned, so all fields about it are those of before. The
fields about the client are the assumptions. -/
lemma Faithful.clientTakesHead (h : Faithful e ps x t) {y : Client.Happening}
    {rest : List Client.Happening} (hx : x.toClient = y :: rest)
    (hending : ∃ chunks n, rest = chunks.map .received ++ .replicate n .sourceEnded ∧
      (x.session.outcome = none → n = 0) ∧
      if (x.client.happen y).client.isClosed then chunks = [] ∧ x.session.outcome ≠ none
      else x.session.outcome ≠ none → n ≠ 0)
    (hsane : ∀ f, .malformed f ∉ (x.client.happen y).trace)
    (hclosing : if (x.client.happen y).client.isClosed then
        ∃ before after, t.client ++ (x.client.happen y).trace = before ++ .closed :: after ∧
        .closed ∉ before ∧
          before.filterMap ClientTrace.event? = events t.session ∧ Silent after
      else .closed ∉ t.client ++ (x.client.happen y).trace) :
    Faithful e ps { x with client := (x.client.happen y).client, toClient := rest }
      (t ++ ⟨(x.client.happen y).trace, []⟩) := by
  have hhead : x.toClient = [y] ++ rest := hx
  have hc : Consistent e { x with client := (x.client.happen y).client, toClient := rest }
      (t ++ ⟨(x.client.happen y).trace ++ [], []⟩) := (h.toConsistent.clientTakes hhead).1
  rw [List.append_nil] at hc
  have hsession : (t ++ ⟨(x.client.happen y).trace, []⟩).session = t.session := List.append_nil _
  exact {
    toConsistent := hc
    coherent := h.coherent
    linked := h.linked
    chunks := h.chunks
    heeded := by rw [hsession]; exact h.heeded
    yields := by rw [hsession]; exact h.yields
    written := by rw [hsession]; exact h.written
    ending := hending
    sane := fun f hf => (List.mem_append.1 hf).elim (h.sane f) (hsane f)
    closing := by rw [hsession]; exact hclosing }

/-- The client takes a chunk that is at the head of what is under way to it.

**Proof sketch.** A chunk is one event, and an open client hears it and stays open. The waits that
end with it are silent. -/
lemma Faithful.clientReceives (h : Faithful e ps x t) {chunk : Bytes} {chunks : List Bytes} {n : ℕ}
    (hx : x.toClient = .received chunk :: (chunks.map .received ++ .replicate n .sourceEnded))
    (hrunning : x.session.outcome = none → n = 0) (hopen : x.client.isClosed = false)
    (hover : x.session.outcome ≠ none → n ≠ 0) :
    Faithful e ps
      { x with
        client := (x.client.happen (.received chunk)).client
        toClient := chunks.map .received ++ .replicate n .sourceEnded }
      (t ++ ⟨(x.client.happen (.received chunk)).trace, []⟩) := by
  have horderly : Client.Happening.IsOrderly (.received chunk) :=
    h.toClient _ (hx ▸ List.mem_cons_self)
  obtain ⟨ev, hev⟩ := Option.isSome_iff_exists.1 horderly
  have hhear := (h.attached.happen_received hev).2
  rw [hopen, if_neg Bool.false_ne_true] at hhear
  obtain ⟨hclient, htrace⟩ := Prod.mk.inj hhear
  have hstays : (x.client.happen (.received chunk)).client.isClosed = false := by
    rw [hclient]
    exact hopen
  obtain ⟨hsane, hquiet, -⟩ := notMem_of_silent (ClientTrace.silent_ofWaits
    (x.client.waits.filter fun w => w.awaits ev) fun w => w.wanted.part ev)
  have hclosing := h.closing
  rw [hopen, if_neg Bool.false_ne_true] at hclosing
  refine h.clientTakesHead hx ⟨chunks, n, rfl, hrunning, ?_⟩ (fun f hf => ?_) ?_
  · rw [hstays, if_neg Bool.false_ne_true]
    exact hover
  · rw [htrace] at hf
    exact hsane f ((List.mem_cons.1 hf).resolve_left nofun)
  · rw [hstays, if_neg Bool.false_ne_true, htrace]
    exact fun hm => (List.mem_append.1 hm).elim hclosing fun hm =>
      hquiet ((List.mem_cons.1 hm).resolve_left nofun)

/-- The client takes the end that is at the head of what is under way to it.

**Proof sketch.** The client is closed afterwards. If it was open, nothing but ends was under way to
it, so it had heard all events of the session, and behind its telling that it is closed there is
only silence. -/
lemma Faithful.clientEnds (h : Faithful e ps x t) {n : ℕ}
    (hx : x.toClient = .sourceEnded :: .replicate n .sourceEnded) (ho : x.session.outcome ≠ none) :
    Faithful e ps
      { x with
        client := (x.client.happen .sourceEnded).client
        toClient := .replicate n .sourceEnded }
      (t ++ ⟨(x.client.happen .sourceEnded).trace, []⟩) := by
  obtain ⟨hclosed, after, hsilent, htrace⟩ := happen_sourceEnded h.attached
  have hclosing := h.closing
  refine h.clientTakesHead hx ⟨[], n, rfl, fun hn => absurd hn ho, ?_⟩ (fun f hf => ?_) ?_
  · rw [if_pos hclosed]
    exact ⟨rfl, ho⟩
  · rw [htrace] at hf
    split_ifs at hf
    · cases hf
    · exact (notMem_of_silent hsilent).1 f ((List.mem_cons.1 hf).resolve_left nofun)
  · rw [if_pos hclosed, htrace]
    split_ifs at hclosing ⊢ with hc
    · rw [List.append_nil]
      exact hclosing
    · -- nothing but ends is under way, so the client has heard all events
      have hheard := h.unheard (Bool.eq_false_iff.2 hc)
      have hnone : Client.Happening.events x.toClient = [] := by
        rw [hx, Client.Happening.events, List.filterMap_eq_nil_iff]
        intro y hy
        rw [List.eq_of_mem_replicate (n := n + 1) hy]
        rfl
      rw [hnone, List.append_nil, h.written] at hheard
      exact ⟨t.client, after, rfl, hclosing, hheard, hsilent⟩

/-- The client takes what is at the head of what is under way to it.

**Proof sketch.** Induction on what is taken. The form of what is under way says whether the next
one is a chunk or an end, and `clientReceives` or `clientEnds` does the step. -/
lemma Faithful.clientTakes (h : Faithful e ps x t) {hs rest : List Client.Happening}
    (hx : x.toClient = hs ++ rest) :
    Faithful e ps (Exchange.clientTakes { x with toClient := rest } hs).1
      (t ++ (Exchange.clientTakes { x with toClient := rest } hs).2) := by
  induction hs generalizing x t with
  | nil =>
    have hnone : ({ x with toClient := rest } : Exchange) = x := by
      rw [← List.nil_append rest, ← hx]
    have ht : t ++ (x.clientTakes []).2 = t :=
      congrArg₂ Trace.mk (List.append_nil _) (List.append_nil _)
    rw [hnone, ht]
    exact h
  | cons y hs ih =>
    have hfirst :
        Faithful e ps { x with client := (x.client.happen y).client, toClient := hs ++ rest }
        (t ++ ⟨(x.client.happen y).trace, []⟩) := by
      obtain ⟨chunks, n, hto, hrunning, hend⟩ := h.ending
      cases chunks with
      | cons chunk chunks =>
        obtain ⟨rfl, hrest⟩ := List.cons.inj (hx.symm.trans hto)
        have hbehind : hs ++ rest = chunks.map .received ++ .replicate n .sourceEnded := hrest
        split_ifs at hend with hclosed
        · exact absurd hend.1 nofun
        · rw [hbehind]
          exact h.clientReceives hto hrunning (Bool.eq_false_iff.2 hclosed) hend
      | nil =>
        cases n with
        | zero => cases hx.symm.trans hto
        | succ n =>
          obtain ⟨rfl, hrest⟩ := List.cons.inj (hx.symm.trans hto)
          have hbehind : hs ++ rest = .replicate n .sourceEnded := hrest
          rw [hbehind]
          exact h.clientEnds hto fun hn => absurd (hrunning hn) n.succ_ne_zero
    have hrest := ih hfirst rfl
    rw [trace_append_assoc] at hrest
    exact hrest

/-! ### Runs -/

/-- What an open client does when it is asked something, other than to close. -/
lemma happen_called {c : Client} (h : c.Attached) (id : ℕ) {request : Request}
    (hreq : request ≠ .close) :
    (c.happen (.called id request)).client.isClosed = c.isClosed ∧
      Outgoing (c.happen (.called id request)).trace ∧
      asked (c.happen (.called id request)).trace =
        (c.sends request.commands).map Command.carried := by
  obtain ⟨hclient, htrace⟩ := h.happen_called id request
  have hout := Client.outgoing_call c id hreq
  rw [hclient, htrace]
  refine ⟨?_, hout, h.asked_call id hreq⟩
  have hclosed := (Client.works_call c id request).isClosed
  rw [hout.silent.any_isClosing, Bool.or_false] at hclosed
  exact hclosed

/-- Time lets an attached client settle calls, and neither closes it nor lets it ask for anything.
-/
lemma happen_elapsed {c : Client} (h : c.Attached) (time : Number) :
    (c.happen (.elapsed time)).client.isClosed = c.isClosed ∧
    Outgoing (c.happen (.elapsed time)).trace ∧
      asked (c.happen (.elapsed time)).trace = [] := by
  obtain ⟨hclient, htrace⟩ := Client.happen_of_attached (x := .elapsed time) (h.advance time)
  rw [hclient, htrace]
  exact ⟨rfl, ClientTrace.outgoing_ofWaits _ _, asked_eq_nil Client.filterMap_ofWaits.1⟩

/-- **One happening**, other than a call to close the client, keeps an exchange faithful, and the
client sends what it should.

**Proof sketch.** One case for each happening. A call and the passing of time are outgoing; what the
session takes are chunks, which are orderly and bring no text of the machine. -/
theorem Faithful.happen (h : Faithful e ps x t) {y : Happening} (hy : ∀ id, y ≠ .called id .close) :
    Faithful e (ps ++ y.text?.toList) (x.happen y).1 (t ++ (x.happen y).2) ∧
      asked (x.happen y).2.client = (x.sent [y]).map Command.carried := by
  have hc := (h.toConsistent.happen y).1
  have hps : ps ++ [] = ps := List.append_nil ps
  cases y with
  | called id request =>
    obtain ⟨hclosed, hout, hasked⟩ := happen_called h.attached id fun he => hy id (he ▸ rfl)
    refine ⟨hps.symm ▸ h.clientDoes hc hclosed hout, ?_⟩
    rw [sent, sent, List.append_nil]
    exact hasked
  | elapsed time =>
    obtain ⟨hclosed, hout, hasked⟩ := happen_elapsed h.attached time
    exact ⟨hps.symm ▸ h.clientDoes hc hclosed hout, hasked⟩
  | printed p =>
    have horderly : ∀ z ∈ [Session.Happening.printed p], z.IsOrderly ∧ z ≠ .inputEnded := by
      intro z hz
      rw [List.mem_singleton.1 hz]
      exact ⟨trivial, nofun⟩
    exact ⟨h.sessionDoes horderly h.chunks hc, rfl⟩
  | sessionReads n =>
    have hreceived : ∀ z ∈ x.toSession.take n, ∃ chunk, z = .received chunk :=
      fun z hz => h.chunks z (List.mem_of_mem_take hz)
    have htexts : Session.Happening.texts (x.toSession.take n) = [] := by
      refine List.filterMap_eq_nil_iff.2 fun z hz => ?_
      obtain ⟨chunk, rfl⟩ := hreceived z hz
      rfl
    have horderly : ∀ z ∈ x.toSession.take n, z.IsOrderly ∧ z ≠ .inputEnded := by
      intro z hz
      refine ⟨h.toSession z (List.mem_of_mem_take hz), ?_⟩
      obtain ⟨chunk, rfl⟩ := hreceived z hz
      exact nofun
    have hreads := h.sessionDoes horderly (fun z hz => h.chunks z (List.mem_of_mem_drop hz)) hc
    rw [htexts] at hreads
    exact ⟨hreads, rfl⟩
  | clientReads n =>
    have htakes := h.clientTakes (List.take_append_drop n x.toClient).symm
    obtain ⟨evs, hears, -⟩ := h.attached.hears_run fun z hz =>
      h.toClient z (List.mem_of_mem_take hz)
    exact ⟨hps.symm ▸ htakes, asked_eq_nil hears.sent⟩

/-- What a client sends in a happening and in others behind it. -/
lemma sent_cons (x : Exchange) (y : Happening) (hs : List Happening) :
    x.sent (y :: hs) = x.sent [y] ++ (x.happen y).1.sent hs := by
  cases y with
  | called id request => rw [sent, sent, sent, List.append_nil]
  | elapsed | printed | sessionReads | clientReads => rfl

/-- **Happenings**, one after the other, none of them a call to close the client.

**Proof sketch.** Induction on the happenings, with `Faithful.happen` as the step; the texts and the
commands of both parts are put behind each other. -/
theorem Faithful.run (h : Faithful e ps x t) {hs : List Happening}
    (hhs : ∀ id, .called id .close ∉ hs) :
    Faithful e (ps ++ Happening.texts hs) (x.run hs).1 (t ++ (x.run hs).2) ∧
      asked (x.run hs).2.client = (x.sent hs).map Command.carried := by
  induction hs generalizing ps x t with
  | nil =>
    have ht : t ++ (x.run []).2 = t := congrArg₂ Trace.mk (List.append_nil _) (List.append_nil _)
    rw [ht, Happening.texts, List.filterMap_nil, List.append_nil]
    exact ⟨h, rfl⟩
  | cons y hs ih =>
    obtain ⟨hy, hsent⟩ := h.happen fun id he => hhs id (he ▸ List.mem_cons_self)
    obtain ⟨hrest, hsent'⟩ := ih hy fun id hm => hhs id (List.mem_cons_of_mem y hm)
    have htexts : Happening.texts (y :: hs) = y.text?.toList ++ Happening.texts hs := by
      rw [Happening.texts, List.filterMap_cons]
      cases y.text? <;> rfl
    rw [List.append_assoc, ← htexts, trace_append_assoc] at hrest
    refine ⟨hrest, ?_⟩
    rw [sent_cons, List.map_append, ← hsent, ← hsent', ← asked_append]
    rfl

/-! ## Transparency -/

/-- A client and a session that talk to each other are *transparent*: what they have done is what
the engine `e` does with the commands that were sent and the texts that the machine has printed by
itself. -/
structure Transparent (e : Engine) (sent : List Command) (ps : List Printed) (x : Exchange)
    (t : Trace) : Prop where
  /-- The session handles the commands that were sent, up to the first that brings the engine to its
  end. -/
  handled : commands t.session <+: e.heeded sent
  /-- It has handled them all when nothing is under way to it. -/
  handled_eq : x.toSession = [] → commands t.session = e.heeded sent
  /-- The engine has let out the events by itself. -/
  yields : e.Yields (commands t.session) ps x.session.engine (events t.session)
  /-- The client hears the events of the engine. -/
  heard : t.client.filterMap ClientTrace.event? <+: events t.session
  /-- It has heard them all when nothing is under way to it. -/
  heard_eq : x.toClient = [] → t.client.filterMap ClientTrace.event? = events t.session
  /-- It takes no bytes for no event. -/
  sane : ∀ f, .malformed f ∉ t.client
  /-- The session is over when the engine has come to its end. -/
  over_iff : x.session.outcome ≠ none ↔ x.session.engine.terminated = true
  /-- The client is closed when the session is over and nothing is under way. -/
  closed_iff : x.toClient = [] → (x.client.isClosed = true ↔ x.session.outcome ≠ none)
  /-- A client that is closed has told so once, behind the last event. -/
  closed : x.client.isClosed = true → x.session.outcome ≠ none ∧
    ∃ before after, t.client = before ++ .closed :: after ∧ .closed ∉ before ∧ .closed ∉ after ∧
      before.filterMap ClientTrace.event? = events t.session ∧
      after.filterMap ClientTrace.event? = []
  /-- A client that is open has not told that it is closed. -/
  opened : x.client.isClosed = false → .closed ∉ t.client
  /-- A command that can be written is sent by a client that is open, and by no other. -/
  accepts : ∀ id c, (x.client.happen (.called id (.send c))).result = .ok () ↔
    x.client.isClosed = false ∧ c.Encodes
  /-- A client that sends a command writes its frames. -/
  sends : ∀ id c, (x.client.happen (.called id (.send c))).result = .ok () →
    asked (x.client.happen (.called id (.send c))).trace = [c.carried]
  /-- A client that does not send a command lets nothing out. -/
  refuses : ∀ id c, (x.client.happen (.called id (.send c))).result ≠ .ok () →
    (x.client.happen (.called id (.send c))).trace = []
  /-- A client that is closed says that it is not connected. -/
  disconnected : x.client.isClosed = true → ∀ id c,
    (x.client.happen (.called id (.send c))).result = .error .notConnected

/-- The session of a faithful exchange is over when its engine has come to its end. -/
lemma Faithful.over_iff (h : Faithful e ps x t) :
    x.session.outcome ≠ none ↔ x.session.engine.terminated = true := by
  constructor
  · exact fun ho => (h.coherent.agrees.rests h.linked ho).terminated
  · exact fun ht ho => absurd ((h.coherent.live ho).terminated.symm.trans ht) nofun

/-- A client that is closed has told so once, behind the last event of a session that is over. -/
lemma Faithful.exists_closed (h : Faithful e ps x t) (hc : x.client.isClosed = true) :
    x.session.outcome ≠ none ∧
      ∃ before after, t.client = before ++ .closed :: after ∧ .closed ∉ before ∧ .closed ∉ after ∧
        before.filterMap ClientTrace.event? = events t.session ∧
        after.filterMap ClientTrace.event? = [] := by
  have hclosing := h.closing
  rw [if_pos hc] at hclosing
  obtain ⟨before, after, ht, hbefore, hevents, hsilent⟩ := hclosing
  obtain ⟨-, hafter, hnone⟩ := notMem_of_silent hsilent
  exact ⟨h.isOver hc, before, after, ht, hbefore, hafter, hevents, hnone⟩

/-- When nothing is under way to it, the client has heard all events of the session.

**Proof sketch.** A client that is closed has told so behind the last of them. For an open one, what
it has not heard is under way. -/
lemma Faithful.heard_events_eq (h : Faithful e ps x t) (hnone : x.toClient = []) :
    t.client.filterMap ClientTrace.event? = events t.session := by
  rcases Bool.eq_false_or_eq_true x.client.isClosed with hc | hc
  · obtain ⟨-, before, after, ht, -, -, hevents, hsilent⟩ := h.exists_closed hc
    rw [ht, List.filterMap_append, hevents, List.filterMap_cons_none rfl, hsilent, List.append_nil]
  · have hheard := h.unheard hc
    rw [hnone, h.written] at hheard
    exact (List.append_nil _).symm.trans hheard

/-- When nothing is under way to it, the client is closed exactly if the session is over: otherwise
the end of the source would be under way. -/
lemma Faithful.isClosed_iff (h : Faithful e ps x t) (hnone : x.toClient = []) :
    x.client.isClosed = true ↔ x.session.outcome ≠ none := by
  obtain ⟨chunks, n, hto, -, hend⟩ := h.ending
  split_ifs at hend with hc
  · exact iff_of_true hc hend.2
  · refine iff_of_false hc fun ho => hend ho ?_
    have hlen := congrArg List.length (hto.symm.trans hnone)
    rw [List.length_append, List.length_replicate, List.length_nil] at hlen
    exact Nat.eq_zero_of_add_eq_zero_left hlen

/-- What the session of a faithful exchange has handled is what the engine heeds of all that was
sent, and all of it when nothing is under way.

**Proof sketch.** As long as the session runs, it has handled a prefix of what was sent and the rest
is under way, so the engine heeds what was handled. Once it is over, the engine heeds nothing behind
that. -/
lemma Faithful.commands_eq (h : Faithful e ps x t) (he : e.terminated = false) :
    commands t.session <+: e.heeded (asked t.client) ∧
      (x.toSession = [] → commands t.session = e.heeded (asked t.client)) := by
  by_cases ho : x.session.outcome = none
  · have hlive := (h.coherent.live ho).terminated
    rw [h.engine] at hlive
    rw [← h.unread ho, Engine.heeded_append_of_live h.heeded hlive]
    refine ⟨List.prefix_append _ _, fun hnone => ?_⟩
    rw [hnone]
    exact (List.append_nil _).symm
  · have hover := h.over_iff.1 ho
    rw [h.engine] at hover
    obtain ⟨rest, hrest⟩ := h.handled
    rw [← hrest, Engine.heeded_append_of_over he h.heeded hover]
    exact ⟨List.prefix_rfl, fun _ => rfl⟩

/-- What an attached client does when it is told to send a command.

**Proof sketch.** A closed client refuses. An open one is attached, so it sends the command if that
encodes and throws what encoding throws otherwise. -/
lemma happen_send {c : Client} (h : c.Attached) (id : ℕ) (command : Command) :
    (c.isClosed = true ∧ (c.happen (.called id (.send command))).trace = [] ∧
      (c.happen (.called id (.send command))).result = .error .notConnected) ∨
    (c.isClosed = false ∧
      (∃ f, command.encode = .error f ∧ (c.happen (.called id (.send command))).trace = [] ∧
      (c.happen (.called id (.send command))).result = .error f)) ∨
    (c.isClosed = false ∧ command.Encodes ∧
      asked (c.happen (.called id (.send command))).trace = [command.carried] ∧
      (c.happen (.called id (.send command))).result = .ok ()) := by
  have hresult : (c.happen (.called id (.send command))).result = (c.send command).result := rfl
  have htrace : (c.happen (.called id (.send command))).trace = (c.send command).trace :=
    (h.happen_called id (.send command)).2
  rw [hresult, htrace]
  rcases Bool.eq_false_or_eq_true c.isClosed with hc | hc
  · rw [Client.send_of_isClosed hc]
    exact .inl ⟨hc, rfl, rfl⟩
  · rw [h.send_of_isOpen hc]
    cases he : command.encode with
    | error f => exact .inr (.inl ⟨hc, f, rfl, rfl, rfl⟩)
    | ok bytes => exact .inr (.inr ⟨hc, ⟨bytes, he⟩, asked_sent he, rfl⟩)

/-- What a faithful exchange has done is transparent.

**Proof sketch.** Each clause about what was handled, heard or told is a lemma about faithful
exchanges. The clauses about a call to send are the three ways in which it comes out. -/
lemma Faithful.transparent (h : Faithful e ps x t) (he : e.terminated = false) :
    Transparent e (asked t.client) ps x t := by
  obtain ⟨hhandled, hhandledAll⟩ := h.commands_eq he
  exact {
    handled := hhandled
    handled_eq := hhandledAll
    yields := h.yields
    heard := h.written ▸ h.heard
    heard_eq := h.heard_events_eq
    sane := h.sane
    over_iff := h.over_iff
    closed_iff := h.isClosed_iff
    closed := h.exists_closed
    opened := fun hc => by
      have hclosing := h.closing
      rwa [hc, if_neg Bool.false_ne_true] at hclosing
    accepts := fun id c => by
      rcases happen_send h.attached id c with ⟨hc, -, hr⟩ | ⟨-, f, he, -, hr⟩ | ⟨hc, he, -, hr⟩
      · exact iff_of_false (hr ▸ nofun) fun hn => absurd (hc.symm.trans hn.1) nofun
      · refine iff_of_false (hr ▸ nofun) fun hn => ?_
        obtain ⟨bytes, hb⟩ := hn.2
        cases he.symm.trans hb
      · exact iff_of_true hr ⟨hc, he⟩
    sends := fun id c hsent => by
      rcases happen_send h.attached id c with ⟨-, -, hr⟩ | ⟨-, f, -, -, hr⟩ | ⟨-, -, hasked, -⟩
      · cases hr.symm.trans hsent
      · cases hr.symm.trans hsent
      · exact hasked
    refuses := fun id c hrefused => by
      rcases happen_send h.attached id c with ⟨-, ht, -⟩ | ⟨-, f, -, ht, -⟩ | ⟨-, -, -, hr⟩
      · exact ht
      · exact ht
      · exact absurd hr hrefused
    disconnected := fun hclosed id c => by
      rcases happen_send h.attached id c with ⟨-, -, hr⟩ | ⟨hc, -⟩ | ⟨hc, -⟩
      · exact hr
      · exact absurd (hclosed.symm.trans hc) nofun
      · exact absurd (hclosed.symm.trans hc) nofun }

/-- **A client and a session from their start**, as long as no caller closes the client: they do
what the engine does with the commands that were sent. Each is handled as its frames carry it, which
only for a string with a surrogate without its partner is another one.

**Proof sketch.** The exchange is faithful at its start and stays so along the happenings, which
gives all parts of the statement at the end. What the client has asked for then is what it has sent.
-/
theorem transparent_run_start (timeout : Option Number) (machine : Machine) (logCommands : Bool)
    (hs : List Happening) (hopen : ∀ id, .called id .close ∉ hs) :
    Transparent (.start machine logCommands)
      (((start timeout (.start machine logCommands) true).sent hs).map Command.carried)
        (Happening.texts hs)
      ((start timeout (.start machine logCommands) true).run hs).1
      ((start timeout (.start machine logCommands) true).run hs).2 := by
  obtain ⟨h, hsent⟩ := (faithful_start timeout machine logCommands).run hopen
  have ht := h.transparent rfl
  rw [List.nil_append] at ht
  have hall :
      asked (⟨[], []⟩ ++ ((start timeout (.start machine logCommands) true).run hs).2 :
        Trace).client =
      ((start timeout (.start machine logCommands) true).sent hs).map Command.carried := hsent
  rw [hall] at ht
  exact ht

/-- A machine prints a text of 255 bytes twice, and the client stops it. A command that is sent
behind that is not handled. -/
theorem transparent_run_start_of_long_outputs :
    ∃ text hs x t, text = String.ofList (.replicate 255 'a') ∧
      hs = [.printed (.output, text), .called 0 (.send .stop), .printed (.output, text),
        .called 1 (.send .step), .sessionReads 2, .clientReads 3] ∧
      (start none (.start (.initial [] 16 {}) false) true).run hs = (x, t) ∧
      Transparent (.start (.initial [] 16 {}) false) [.stop, .step] [(.output, text),
        (.output, text)] x t ∧
      commands t.session = [.stop] ∧ x.client.isClosed = true ∧
      t.client.filterMap ClientTrace.event? = [.output text, .output text] := by
  obtain ⟨text, htext⟩ : ∃ text, text = String.ofList (.replicate 255 'a') := ⟨_, rfl⟩
  have h := transparent_run_start none (.initial [] 16 {}) false
    [.printed (.output, text), .called 0 (.send .stop), .printed (.output, text),
      .called 1 (.send .step), .sessionReads 2, .clientReads 3] (by simp)
  have hsent : (start none (.start (.initial [] 16 {}) false) true).sent
      [.printed (.output, text), .called 0 (.send .stop), .printed (.output, text),
        .called 1 (.send .step), .sessionReads 2, .clientReads 3] = [.stop, .step] := by
    rw [htext]
    decide +kernel
  rw [hsent] at h
  have hall : ((start none (.start (.initial [] 16 {}) false) true).run
      [.printed (.output, text), .called 0 (.send .stop), .printed (.output, text),
        .called 1 (.send .step), .sessionReads 2, .clientReads 3]).1.toClient = [] := by
    refine List.isEmpty_iff.1 ?_
    rw [htext]
    decide +kernel
  refine ⟨text, _, _, _, htext, rfl, (Prod.eta _).symm, h, ?_, (h.closed_iff hall).2 ?_,
    (h.heard_eq hall).trans ?_⟩ <;> rw [htext] <;> decide +kernel

end DebugWire.Exchange
