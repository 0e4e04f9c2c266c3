import DebugWire.Client.Pair
import DebugWire.Proofs.Client.Waiting
import DebugWire.Proofs.Session.Serving

set_option relaxedAutoImplicit false
set_option autoImplicit false

/-!
# Exchanges between a client and a session

What a client and a session write to each other may be under way for any time. An exchange is a pair
of them with what is under way in either direction: each write is one chunk, and chunks arrive in
the order in which they were written. A pair that comes to rest after each happening is an exchange
in which all is read at once.

At any time the session has handled the first of the commands that the client has written, and the
client has heard the first of the events that the session has written. The others are under way,
unless the side that would read them is over.

## Main definitions

* `DebugWire.Exchange` — a client, a session, and what is under way between them.
* `DebugWire.Exchange.run` — the effect of happenings.
* `DebugWire.Exchange.Consistent` — what holds of an exchange at any time.

## Main results

* `DebugWire.Exchange.exists_run_eq_happen` — a pair is an exchange.
* `DebugWire.Exchange.Consistent.happen`, `DebugWire.Exchange.Consistent.run` — what happenings
  keep.
* `DebugWire.Exchange.Consistent.heard_prefix` — the answers that the client has heard.
-/

namespace DebugWire

/-! ## Exchanges -/

/-- A client and a session, with what is under way between them. -/
structure Exchange extends Pair where
  /-- What the session has still to read. -/
  toSession : List Session.Happening
  /-- What the client has still to read. -/
  toClient : List Client.Happening

namespace Exchange

/-- What a client and a session have let out. -/
structure Trace where
  /-- What the client has let out. -/
  client : List ClientTrace
  /-- What the session has let out. -/
  session : List SessionTrace

/-- Traces one behind the other. -/
instance : Append Trace := ⟨fun t t' => ⟨t.client ++ t'.client, t.session ++ t'.session⟩⟩

/-- What the client has let out in traces one behind the other. -/
@[simp]
lemma client_append (t t' : Trace) : (t ++ t').client = t.client ++ t'.client := rfl

/-- What the session has let out in traces one behind the other. -/
@[simp]
lemma session_append (t t' : Trace) : (t ++ t').session = t.session ++ t'.session := rfl

/-- Traces are put one behind the other part by part: those of the clients, and those of the
sessions. -/
lemma mk_append_mk (a a' : List ClientTrace) (b b' : List SessionTrace) :
    (⟨a, b⟩ : Trace) ++ ⟨a', b'⟩ = ⟨a ++ a', b ++ b'⟩ := rfl

/-- Putting traces one behind the other is associative, as it is for both of their parts. -/
lemma trace_append_assoc (t t' t'' : Trace) : t ++ t' ++ t'' = t ++ (t' ++ t'') :=
  congrArg₂ Trace.mk (List.append_assoc ..) (List.append_assoc ..)

/-- What can happen in an exchange. -/
inductive Happening where
  /-- A caller asks something of the client. -/
  | called (id : ℕ) (request : Request)
  /-- Milliseconds go by for the client. -/
  | elapsed (time : Number)
  /-- The machine prints a text by itself. -/
  | printed (p : Printed)
  /-- The session reads so much of what is under way to it. -/
  | sessionReads (count : ℕ)
  /-- The client reads so much of what is under way to it. -/
  | clientReads (count : ℕ)

/-- A client that was bound to the streams of a new session. -/
def start (timeout : Option Number) (engine : Engine) (endsOutput : Bool) : Exchange where
  client := (Client.unbound timeout).bind (.fresh none)
  session := .start engine endsOutput none
  toSession := []
  toClient := []

/-- The effect of something that happens to the client. -/
def clientDoes (x : Exchange) (h : Client.Happening) : Exchange × Trace :=
  let reply := x.client.happen h
  ({ x with client := reply.client, toSession := x.toSession ++ reply.trace.filterMap Pair.seen? },
    ⟨reply.trace, []⟩)

/-- The effect of something that happens to the session. -/
def sessionDoes (x : Exchange) (hs : List Session.Happening) : Exchange × Trace :=
  let (session, trace) := x.session.run hs
  ({ x with
      session := session
      toClient := x.toClient ++ Pair.answers (SessionTrace.writes trace) session.output.isEnded },
        ⟨[], trace⟩)

/-- The client takes what has come in. It writes nothing then. -/
def clientTakes (x : Exchange) (hs : List Client.Happening) : Exchange × Trace :=
  let (client, trace) := x.client.run hs
  ({ x with client := client }, ⟨trace, []⟩)

/-- The effect of a happening. -/
def happen (x : Exchange) : Happening → Exchange × Trace
  | .called id request => x.clientDoes (.called id request)
  | .elapsed time => x.clientDoes (.elapsed time)
  | .printed p => x.sessionDoes [.printed p]
  | .sessionReads n => sessionDoes { x with toSession := x.toSession.drop n } (x.toSession.take n)
  | .clientReads n => clientTakes { x with toClient := x.toClient.drop n } (x.toClient.take n)

/-- The effect of happenings, one after the other. -/
def run (x : Exchange) : List Happening → Exchange × Trace
  | [] => (x, ⟨[], []⟩)
  | h :: hs =>
    let (x₁, t₁) := x.happen h
    let (x₂, t₂) := x₁.run hs
    (x₂, t₁ ++ t₂)

/-- The effect of happenings and others is that of the first, and then of the others on the exchange
that is left. -/
lemma run_append (x : Exchange) (hs hs' : List Happening) :
    x.run (hs ++ hs') = (((x.run hs).1.run hs').1, (x.run hs).2 ++ ((x.run hs).1.run hs').2) := by
  induction hs generalizing x with
  | nil => rfl
  | cons h hs ih =>
    simp only [List.cons_append, run, ih, trace_append_assoc]

/-! ### Pairs -/

/-- What happens to the client. -/
def Happening.client? : Happening → Option Client.Happening
  | called id request => some (.called id request)
  | elapsed time => some (.elapsed time)
  | _ => none

/-- What a pair delivers is read at once in an exchange: the session reads all that has been seen,
and the client all that has been answered. -/
lemma exists_run_eq_deliver (p : Pair) (hs : List Session.Happening) :
    ∃ n trace, run ⟨p, hs, []⟩ [.sessionReads hs.length, .clientReads n] =
      (⟨(p.deliver hs).1, [], []⟩, ⟨(p.deliver hs).2, trace⟩) := by
  refine ⟨(Pair.answers (SessionTrace.writes (p.session.run hs).2)
    (p.session.run hs).1.output.isEnded).length, (p.session.run hs).2, ?_⟩
  simp only [run, happen, sessionDoes, clientTakes, Pair.deliver, List.take_length,
    List.drop_length, mk_append_mk, List.nil_append, List.append_nil]

/-- **A pair** that comes to rest is an exchange in which all that is under way is read at once.

**Proof sketch.** The happening is what the client does alone, since nothing has been under way.
What it has let out is under way then, and the session and the client read all of it, by
`exists_run_eq_deliver`. -/
theorem exists_run_eq_happen (p : Pair) {y : Happening} {h : Client.Happening}
    (hy : y.client? = some h) :
    ∃ n k trace, run ⟨p, [], []⟩ [y, .sessionReads n, .clientReads k] =
      (⟨(p.happen h).1, [], []⟩, ⟨(p.happen h).2.1, trace⟩) := by
  have hdo : happen ⟨p, [], []⟩ y = clientDoes ⟨p, [], []⟩ h := by
    cases y with
    | called | elapsed => rw [← Option.some.inj hy]; rfl
    | printed | sessionReads | clientReads => cases hy
  obtain ⟨k, trace, hrun⟩ := exists_run_eq_deliver { p with client := (p.client.happen h).client }
    ((p.client.happen h).trace.filterMap Pair.seen?)
  refine ⟨((p.client.happen h).trace.filterMap Pair.seen?).length, k, trace, ?_⟩
  rw [run, hdo, clientDoes]
  simp only [List.nil_append, hrun, Pair.happen, mk_append_mk]

end Exchange

/-! ## What was written -/

/-- The commands that a client has written, in order. -/
def ClientTrace.asked (trace : List ClientTrace) : List Command :=
  trace.filterMap fun t => t.sent?.bind Command.format.ofChunk?

/-- The events that a session has written, in order. -/
def SessionTrace.written (trace : List SessionTrace) : List Event :=
  (writes trace).filterMap Event.format.ofChunk?

namespace Exchange

open ClientTrace (asked heard)
open SessionTrace (commands written)

/-- What a client has written in traces one behind the other. -/
lemma asked_append (trace trace' : List ClientTrace) :
    asked (trace ++ trace') = asked trace ++ asked trace' :=
  List.filterMap_append

/-- Writing the frames of a command asks for what they carry. -/
lemma asked_sent {c : Command} {bytes : Bytes} (h : c.encode = .ok bytes) :
    asked [.sent bytes] = [c.carried] := by
  have hc : (ClientTrace.sent bytes).sent?.bind Command.format.ofChunk? =
      some (Command.codec.carried c) :=
    Command.codec.ofChunk?_encode h
  rw [asked, List.filterMap_cons, hc, Command.codec_carried]
  rfl

/-- A trace without writes asks for nothing, because commands are asked for by their frames. -/
lemma asked_eq_nil {trace : List ClientTrace} (h : ∀ bytes, .sent bytes ∉ trace) :
    asked trace = [] := by
  refine List.filterMap_eq_nil_iff.2 fun t ht => ?_
  cases t with
  | sent bytes => exact absurd ht (h bytes)
  | _ => rfl

/-- What a session has written in traces one behind the other. -/
lemma written_append (trace trace' : List SessionTrace) :
    written (trace ++ trace') = written trace ++ written trace' := by
  rw [written, SessionTrace.writes_append, List.filterMap_append]
  rfl

/-- What a client lets out brings the commands that it has written. -/
lemma commands_seen (trace : List ClientTrace) :
    Session.Happening.commands (trace.filterMap Pair.seen?) = asked trace := by
  rw [Session.Happening.commands, List.filterMap_filterMap, asked]
  congr 1
  funext t
  cases t <;> rfl

/-- What a client lets out is orderly for the session if it has written frames of commands.

**Proof sketch.** The session sees of the trace the frames that were written and the end of the
stream. A frame is a chunk of one command, which is orderly. -/
lemma isOrderly_seen {trace : List ClientTrace}
    (h : ∀ bytes, .sent bytes ∈ trace → ∃ command : Command, command.encode = .ok bytes) :
    ∀ y ∈ trace.filterMap Pair.seen?, y.IsOrderly := by
  intro y hy
  obtain ⟨t, ht, hseen⟩ := List.mem_filterMap.1 hy
  cases t with
  | sent bytes =>
    obtain ⟨command, he⟩ := h bytes ht
    rw [← Option.some.inj hseen]
    exact Option.isSome_iff_exists.2 ⟨_, Command.codec.ofChunk?_encode he⟩
  | ended =>
    rw [← Option.some.inj hseen]
    trivial
  | event | malformed | closed | settled => cases hseen

/-- The commands that a client has written can be written.

**Proof sketch.** What is asked for is the command that a written frame carries. It has the bytes of
the command from which the frame was made. -/
lemma encodes_of_mem_asked {trace : List ClientTrace}
    (h : ∀ bytes, .sent bytes ∈ trace → ∃ command : Command, command.encode = .ok bytes) :
    ∀ c ∈ asked trace, c.Encodes := by
  intro c hc
  obtain ⟨t, ht, hc⟩ := List.mem_filterMap.1 hc
  cases t with
  | sent bytes =>
    obtain ⟨command, he⟩ := h bytes ht
    have hsame : some (Command.codec.carried command) = some c :=
      (Command.codec.ofChunk?_encode he).symm.trans hc
    rw [Command.codec_carried] at hsame
    exact ⟨bytes, by rw [← Option.some.inj hsame, Command.encode_carried, he]⟩
  | ended | event | malformed | closed | settled => cases hc

/-- Chunks that hold one event each are orderly for the client, and bring these events.

**Proof sketch.** What comes in is a chunk for each write, and the end of the source if the session
has ended its output, which brings no event. -/
lemma answers_orderly {chunks : List Bytes}
    (h : ∀ chunk ∈ chunks, (Event.format.ofChunk? chunk).isSome = true) (ended : Bool) :
    (∀ y ∈ Pair.answers chunks ended, y.IsOrderly) ∧
      Client.Happening.events (Pair.answers chunks ended) =
        chunks.filterMap Event.format.ofChunk? := by
  constructor
  · intro y hy
    rcases List.mem_append.1 hy with hy | hy
    · obtain ⟨chunk, hc, rfl⟩ := List.mem_map.1 hy
      exact h chunk hc
    · split_ifs at hy
      · rw [List.mem_singleton.1 hy]
        trivial
      · cases hy
  · have hend : (if ended then [.sourceEnded] else []).filterMap Client.Happening.event? = [] := by
      cases ended <;> rfl
    rw [Client.Happening.events, Pair.answers, List.filterMap_append, List.filterMap_map, hend,
      List.append_nil]
    rfl

/-! ## Consistency -/

/-- What holds of an exchange at any time, when its engine was `e` and it has let out the trace `t`.
-/
structure Consistent (e : Engine) (x : Exchange) (t : Trace) : Prop where
  /-- The client was bound once. -/
  attached : x.client.Attached
  /-- The session is ready for the next command, or it is over. -/
  serving : x.session.Serving
  /-- One command in each chunk is under way to the session. -/
  toSession : ∀ y ∈ x.toSession, y.IsOrderly
  /-- One event in each chunk is under way to the client. -/
  toClient : ∀ y ∈ x.toClient, y.IsOrderly
  /-- What the client has written are commands. -/
  encodes : ∀ c ∈ asked t.client, c.Encodes
  /-- The session has handled the first of them. -/
  handled : commands t.session <+: asked t.client
  /-- While it is not over, the others are under way. -/
  unread : x.session.outcome = none →
    commands t.session ++ Session.Happening.commands x.toSession = asked t.client
  /-- The client has heard the first of the events that the session has written. -/
  heard : t.client.filterMap ClientTrace.event? <+: written t.session
  /-- While it is open, the others are under way. -/
  unheard : x.client.isClosed = false →
    t.client.filterMap ClientTrace.event? ++ Client.Happening.events x.toClient = written t.session
  /-- The engine has handled the commands. -/
  engine : x.session.engine = e.after (commands t.session)
  /-- The events written that answer queries are the answers to the commands. -/
  answers : (written t.session).filter (·.query?.isSome) = e.answers (commands t.session)

variable {e : Engine} {x : Exchange} {t : Trace}

/-- An exchange at its start is consistent.

**Proof sketch.** Nothing has happened, so both traces are empty, nothing is under way, and the
machine is that of the start. -/
lemma consistent_start (timeout : Option Number) (e : Engine) (endsOutput : Bool)
    (he : e.terminated = false) :
    Consistent e (start timeout e endsOutput) ⟨[], []⟩ where
  attached := Client.attached_bind_unbound timeout
  serving := ⟨fun _ => ⟨rfl, he, rfl⟩, fun _ => rfl, .inl rfl⟩
  toSession := fun _ hy => absurd hy List.not_mem_nil
  toClient := fun _ hy => absurd hy List.not_mem_nil
  encodes := fun _ hc => absurd hc List.not_mem_nil
  handled := List.nil_prefix
  unread _ := rfl
  heard := List.nil_prefix
  unheard _ := rfl
  engine := rfl
  answers := rfl

/-- The client proceeds.

**Proof sketch.** What the client writes is put behind what is under way to the session, and what it
hears does not change. So only the fields about what is asked and what is under way to the session
need an argument. -/
lemma Consistent.clientDoes (h : Consistent e x t) {y : Client.Happening} {id : ℕ}
    (hp : x.client.Proceeds id ((x.client.happen y).client, (x.client.happen y).trace)) :
    Consistent e (x.clientDoes y).1 (t ++ (x.clientDoes y).2) := by
  have hasked : asked (t.client ++ (x.client.happen y).trace) =
      asked t.client ++
        Session.Happening.commands ((x.client.happen y).trace.filterMap Pair.seen?) := by
    rw [asked_append, commands_seen]
  have hheard : (t.client ++ (x.client.happen y).trace).filterMap ClientTrace.event? =
      t.client.filterMap ClientTrace.event? := by
    have hevents : (x.client.happen y).trace.filterMap ClientTrace.event? = [] := hp.events
    rw [List.filterMap_append, hevents, List.append_nil]
  have hclient : (x.clientDoes y).2 = ⟨(x.client.happen y).trace, []⟩ := rfl
  rw [hclient]
  exact {
    attached := hp.attached
    serving := h.serving
    toSession := fun z hz => (List.mem_append.1 hz).elim (h.toSession z) (isOrderly_seen hp.sent z)
    toClient := h.toClient
    encodes := fun c hc => by
      rw [client_append, asked_append] at hc
      exact (List.mem_append.1 hc).elim (h.encodes c) (encodes_of_mem_asked hp.sent c)
    handled := by
      rw [client_append, session_append, List.append_nil, hasked]
      exact h.handled.trans (List.prefix_append _ _)
    unread := fun ho => by
      rw [client_append, session_append, List.append_nil, hasked, ← h.unread ho, List.append_assoc]
      exact congrArg _ List.filterMap_append
    heard := by
      rw [client_append, session_append, List.append_nil, hheard]
      exact h.heard
    unheard := fun hc => by
      rw [client_append, session_append, List.append_nil, hheard]
      exact h.unheard (hp.isOpen hc)
    engine := by
      rw [session_append, List.append_nil]
      exact h.engine
    answers := by
      rw [session_append, List.append_nil]
      exact h.answers }

/-- The session takes what is at the head of what is under way to it.

**Proof sketch.** By `Session.serves_run` a running session handles the commands of all chunks that
it takes, and one that is over handles none; either way it handles a prefix of them. It writes one
chunk for each answer, and these are put behind what is under way to the client. -/
lemma Consistent.sessionDoes (h : Consistent e x t) {hs rest : List Session.Happening}
    (hx : x.toSession = hs ++ rest) :
    Consistent e (Exchange.sessionDoes { x with toSession := rest } hs).1
      (t ++ (Exchange.sessionDoes { x with toSession := rest } hs).2) := by
  have horderly := h.toSession
  rw [hx] at horderly
  obtain ⟨cs, hs', hprefix, hall, hnone⟩ :=
    Session.serves_run h.serving fun y hy => horderly y (List.mem_append_left rest hy)
  obtain ⟨hto, hevents⟩ := answers_orderly hs'.writes (x.session.run hs).1.output.isEnded
  have hcommands : commands (t.session ++ (x.session.run hs).2) = commands t.session ++ cs := by
    rw [SessionTrace.commands_append, hs'.commands]
  have hunread : x.session.outcome = none → commands t.session ++ (Session.Happening.commands hs ++
      Session.Happening.commands rest) = asked t.client := by
    intro ho
    rw [← h.unread ho, hx, Session.Happening.commands, Session.Happening.commands,
      Session.Happening.commands, List.filterMap_append]
  have hsession :
      (Exchange.sessionDoes { x with toSession := rest } hs).2 = ⟨[], (x.session.run hs).2⟩ := rfl
  rw [hsession]
  exact {
    attached := h.attached
    serving := hs'.serving
    toSession := fun y hy => horderly y (List.mem_append_right hs hy)
    toClient := fun y hy => (List.mem_append.1 hy).elim (h.toClient y) (hto y)
    encodes := by
      rw [client_append, List.append_nil]
      exact h.encodes
    handled := by
      rw [client_append, session_append, List.append_nil, hcommands]
      by_cases ho : x.session.outcome = none
      · rw [← hunread ho, List.prefix_append_right_inj]
        exact hprefix.trans (List.prefix_append _ _)
      · rw [hnone ho, List.append_nil]
        exact h.handled
    unread := fun ho => by
      rw [client_append, session_append, List.append_nil, hcommands, hall ho, List.append_assoc]
      exact hunread (hs'.outcome ho)
    heard := by
      rw [client_append, session_append, List.append_nil, written_append]
      exact h.heard.trans (List.prefix_append _ _)
    unheard := fun hc => by
      rw [client_append, session_append, List.append_nil, written_append, ← h.unheard hc,
        List.append_assoc, written, ← hevents]
      exact congrArg _ List.filterMap_append
    engine := by
      rw [session_append, hcommands, Engine.after_append, ← h.engine]
      exact hs'.engine
    answers := by
      rw [session_append, hcommands, Engine.answers_append, ← h.engine, written_append,
        List.filter_append, h.answers]
      exact congrArg _ hs'.answers }

/-- The machine prints a text by itself, and the exchange is as consistent as before. -/
lemma Consistent.printed (h : Consistent e x t) (p : Printed) :
    Consistent e (x.sessionDoes [.printed p]).1 (t ++ (x.sessionDoes [.printed p]).2) := by
  have hp : Consistent e { x with toSession := .printed p :: x.toSession } t :=
    { h with toSession := List.forall_mem_cons.2 ⟨trivial, h.toSession⟩ }
  have hhead : Session.Happening.printed p :: x.toSession = [.printed p] ++ x.toSession := rfl
  exact hp.sessionDoes hhead

/-- The client takes what is at the head of what is under way to it, and keeps each call.

**Proof sketch.** By `Client.Attached.hears_run` an open client hears the events of all chunks that
it takes, and one that closes on the way a prefix of them. It writes nothing meanwhile, so nothing
is asked. -/
lemma Consistent.clientTakes (h : Consistent e x t) {hs rest : List Client.Happening}
    (hx : x.toClient = hs ++ rest) :
    Consistent e (Exchange.clientTakes { x with toClient := rest } hs).1
        (t ++ (Exchange.clientTakes { x with toClient := rest } hs).2) ∧
      ∀ id, x.client.Keeps id (x.client.run hs) := by
  have horderly := h.toClient
  rw [hx] at horderly
  obtain ⟨evs, hh, hprefix, hall, hnone⟩ :=
    h.attached.hears_run fun y hy => horderly y (List.mem_append_left rest hy)
  have hasked : asked (t.client ++ (x.client.run hs).2) = asked t.client := by
    rw [asked_append, asked_eq_nil hh.sent, List.append_nil]
  have hheard : (t.client ++ (x.client.run hs).2).filterMap ClientTrace.event? =
      t.client.filterMap ClientTrace.event? ++ evs := by
    rw [List.filterMap_append, hh.events]
  have hunheard : x.client.isClosed = false → t.client.filterMap ClientTrace.event? ++
      (Client.Happening.events hs ++ Client.Happening.events rest) = written t.session := by
    intro hc
    rw [← h.unheard hc, hx, Client.Happening.events, Client.Happening.events,
      Client.Happening.events, List.filterMap_append]
  have hclient :
      (Exchange.clientTakes { x with toClient := rest } hs).2 = ⟨(x.client.run hs).2, []⟩ := rfl
  rw [hclient]
  refine ⟨?_, hh.keeps⟩
  exact {
    attached := hh.attached
    serving := h.serving
    toSession := h.toSession
    toClient := fun y hy => horderly y (List.mem_append_right hs hy)
    encodes := by
      rw [client_append, hasked]
      exact h.encodes
    handled := by
      rw [client_append, session_append, List.append_nil, hasked]
      exact h.handled
    unread := fun ho => by
      rw [client_append, session_append, List.append_nil, hasked]
      exact h.unread ho
    heard := by
      rw [client_append, session_append, List.append_nil, hheard]
      rcases Bool.eq_false_or_eq_true x.client.isClosed with hc | hc
      · rw [hnone hc, List.append_nil]
        exact h.heard
      · rw [← hunheard hc, List.prefix_append_right_inj]
        exact hprefix.trans (List.prefix_append _ _)
    unheard := fun hc => by
      rw [client_append, session_append, List.append_nil, hheard, hall hc, List.append_assoc]
      exact hunheard (hh.isOpen hc)
    engine := by
      rw [session_append, List.append_nil]
      exact h.engine
    answers := by
      rw [session_append, List.append_nil]
      exact h.answers }

/-- **One happening** keeps an exchange consistent, and each call that it does not make.

**Proof sketch.** One case for each happening, with the lemma about the side that it concerns.
Taking up nothing keeps every call. -/
theorem Consistent.happen (h : Consistent e x t) (y : Happening) :
    Consistent e (x.happen y).1 (t ++ (x.happen y).2) ∧
      ∀ id, (∀ request, y ≠ .called id request) →
        x.client.Keeps id ((x.happen y).1.client, (x.happen y).2.client) := by
  cases y with
  | called id' request =>
    refine ⟨h.clientDoes (h.attached.proceeds_called (Nat.ne_add_one id') request),
      fun id hid => ?_⟩
    exact (h.attached.proceeds_called (fun he => hid request (by rw [he])) request).keeps
  | elapsed time =>
    exact ⟨h.clientDoes (h.attached.proceeds_elapsed 0 time),
      fun id _ => (h.attached.proceeds_elapsed id time).keeps⟩
  | printed p => exact ⟨h.printed p, fun id _ => Client.keeps_nil id x.client⟩
  | sessionReads n =>
    exact ⟨h.sessionDoes (List.take_append_drop n x.toSession).symm,
      fun id _ => Client.keeps_nil id x.client⟩
  | clientReads n =>
    obtain ⟨hc, hkeeps⟩ := h.clientTakes (List.take_append_drop n x.toClient).symm
    exact ⟨hc, fun id _ => hkeeps id⟩

/-- **Happenings**, one after the other, keep an exchange consistent, and each call that they do not
make.

**Proof sketch.** Induction on the happenings, with `Consistent.happen` as the step. -/
theorem Consistent.run (h : Consistent e x t) (hs : List Happening) :
    Consistent e (x.run hs).1 (t ++ (x.run hs).2) ∧
      ∀ id, (∀ request, .called id request ∉ hs) →
        x.client.Keeps id ((x.run hs).1.client, (x.run hs).2.client) := by
  induction hs generalizing x t with
  | nil =>
    refine ⟨?_, fun id _ => Client.keeps_nil id x.client⟩
    have ht : t ++ (x.run []).2 = t := congrArg₂ Trace.mk (List.append_nil _) (List.append_nil _)
    rw [ht]
    exact h
  | cons y hs ih =>
    obtain ⟨hy, hkeeps⟩ := h.happen y
    obtain ⟨hrest, hkeeps'⟩ := ih hy
    rw [trace_append_assoc] at hrest
    refine ⟨hrest, fun id hid => ?_⟩
    have hfirst := hkeeps id fun request he => hid request (he ▸ List.mem_cons_self)
    exact hfirst.append (hkeeps' id fun request hm => hid request (List.mem_cons_of_mem y hm))

/-- A call that nobody has made, neither before nor in further happenings, neither waits nor is
settled behind them. -/
lemma Consistent.tally_run (h : Consistent e x t) {id : ℕ} (hn : x.client.tally id t.client = 0)
    {hs : List Happening} (hid : ∀ request, .called id request ∉ hs) {x' : Exchange} {t' : Trace}
    (hrun : x.run hs = (x', t')) : x'.client.tally id (t ++ t').client = 0 := by
  have hkeeps := (h.run hs).2 id hid
  rw [hrun] at hkeeps
  exact Nat.le_zero.1 ((hkeeps.tally t.client).trans hn.le)

/-- The events of a kind that the session has written are the answers to the queries of that kind.
-/
lemma Consistent.filter_written (h : Consistent e x t) (q : Query) :
    (written t.session).filter (fun ev => ev.query? = some q) =
      Engine.answersTo q e (commands t.session) := by
  rw [Engine.answersTo, ← h.answers, List.filter_filter]
  congr 1
  funext ev
  cases ev.query? <;> simp

/-- The events of a kind that the client has heard are the first answers to the queries of that
kind. -/
lemma Consistent.heard_prefix (h : Consistent e x t) (q : Query) :
    ClientTrace.heard q t.client <+: Engine.answersTo q e (commands t.session) := by
  rw [← h.filter_written]
  exact h.heard.filter _

/-- They are all of these answers while the client is open and nothing is under way to it. -/
lemma Consistent.heard_eq (h : Consistent e x t) (hopen : x.client.isClosed = false)
    (hall : x.toClient = [])
    (q : Query) : ClientTrace.heard q t.client = Engine.answersTo q e (commands t.session) := by
  have hheard := h.unheard hopen
  rw [hall] at hheard
  rw [← h.filter_written, ← hheard]
  exact congrArg (List.filter _) (List.append_nil _).symm

end Exchange

end DebugWire
