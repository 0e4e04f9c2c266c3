import DebugWire.Client.Basic
import DebugWire.Session.Basic

set_option autoImplicit false

/-!
# Pairs of a client and a session

A client that is bound to the streams of a session. What either side writes comes in on the other as
one chunk, and the end of a stream is passed on in the same way. A client never writes in answer to
an event, so one exchange brings the pair to rest: first the session takes all that the client has
written, then the client takes all that the session has written for it.

## Main definitions

* `DebugWire.Pair` — a client and the session at the other end.
* `DebugWire.Pair.deliver` — lets happenings reach the session, and their results the client.
* `DebugWire.Pair.happen` — the effect of something that happens to the client, up to rest.
* `DebugWire.Pair.printed` — the effect of a text that the machine prints by itself.
-/

namespace DebugWire

/-- A client and the session at the other end of its streams. -/
structure Pair where
  /-- The client. -/
  client : Client
  /-- The session. -/
  session : Session

namespace Pair

/-- A client bound to a new session over an engine. -/
def start (client : Client) (engine : Engine) : Pair :=
  ⟨client.bind (.fresh none), .start engine true none⟩

/-- What the session sees of something that the client lets out. -/
def seen? : ClientTrace → Option Session.Happening
  | .sent bytes => some (.received bytes)
  | .ended => some .inputEnded
  | _ => none

/-- What the client sees of writes and of the end of the output. -/
def answers (writes : List Bytes) (ended : Bool) : List Client.Happening :=
  writes.map .received ++ if ended then [.sourceEnded] else []

/-- Lets happenings reach the session, and what it writes for them the client. -/
def deliver (p : Pair) (hs : List Session.Happening) : Pair × List ClientTrace :=
  let (session, trace) := p.session.run hs
  let (client, t) := p.client.run (answers (SessionTrace.writes trace) session.output.isEnded)
  (⟨client, session⟩, t)

/-- The effect of something that happens to the client, and whether a call has failed. -/
def happen (p : Pair) (h : Client.Happening) : Pair × List ClientTrace × Except Fault Unit :=
  let reply := p.client.happen h
  let (p, t) := deliver { p with client := reply.client } (reply.trace.filterMap seen?)
  (p, reply.trace ++ t, reply.result)

/-- The effect of a text that the machine prints by itself. -/
def printed (p : Pair) (text : Printed) : Pair × List ClientTrace := p.deliver [.printed text]

end Pair

end DebugWire
