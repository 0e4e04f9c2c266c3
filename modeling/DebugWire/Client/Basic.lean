import DebugWire.Client.Wait
import DebugWire.Script.Basic
import DebugWire.Session.Sink
import DebugWire.Wire.Reader

set_option autoImplicit false

/-!
# Clients

The side of the link that drives a device. A client is bound to a pair of streams: it writes
commands to one and decodes the events that come in on the other. Queries are a command and a wait
for the event that answers it. Time is a number of milliseconds that only `Client.advance` moves.

A client may be bound again, to the same streams or to new ones. The bytes of an incomplete event
stay in its reader over all of that, and a client that is bound twice to the same streams hears each
chunk twice. It lets go of nothing when it is bound to new streams: if it had not lost the earlier
ones, it hears them as well, and when one of them ends or fails, it takes its present link for gone.

## Main definitions

* `DebugWire.Link` — the pair of streams, as the client has left it.
* `DebugWire.Client` — a client.
* `DebugWire.ClientTrace` — what a client lets out.
* `DebugWire.Request` — what a caller may ask of a client.
* `DebugWire.Client.call` — the effect of a request.
* `DebugWire.Client.Happening`, `DebugWire.Client.happen`, `DebugWire.Client.run` — all that can
  happen to a client, and its effect.
-/

namespace DebugWire

/-! ## Types -/

/-- A pair of streams that a client was bound to. -/
structure Link where
  /-- How many times the client hears each chunk of the source. -/
  listeners : Nat
  /-- Whether the source has neither ended nor failed. -/
  isOpen : Bool
  /-- Where the commands go. -/
  sink : Sink
  deriving DecidableEq

namespace Link

/-- A pair of streams that is new; its first write may be set up to fail. -/
def fresh (failure : Option String) : Link := ⟨0, true, .fresh failure⟩

/-- What can happen on a pair of streams. -/
inductive Happening where
  /-- A chunk comes in on the source. -/
  | received (chunk : Bytes)
  /-- The source ends or fails. -/
  | sourceEnded
  /-- The sink fails. -/
  | sinkFailed
  deriving DecidableEq

end Link

/-- What a client lets out. -/
inductive ClientTrace where
  /-- Bytes were written to the sink. -/
  | sent (bytes : Bytes)
  /-- The sink was ended. -/
  | ended
  /-- An event has come in. -/
  | event (e : Event)
  /-- Bytes have come in that are no event. -/
  | malformed (f : Fault)
  /-- The link is gone. -/
  | closed
  /-- A call has its answer. -/
  | settled (call : Nat) (result : Except Fault Answer)

namespace ClientTrace

/-- The bytes of a write. -/
def sent? : ClientTrace → Option Bytes
  | sent bytes => some bytes
  | _ => none

/-- The event that has come in. -/
def event? : ClientTrace → Option Event
  | event e => some e
  | _ => none

/-- The end of a wait, as its call sees it. -/
def ofWait (w : Wait) (result : Except Fault Answer) : List ClientTrace :=
  match w.call with
  | some call => [settled call result]
  | none => []

end ClientTrace

/-- A client. -/
structure Client where
  /-- The time that a wait may take unless its call says otherwise, in milliseconds. -/
  timeout : Number
  /-- The input that waits for the rest of its event. -/
  reader : Reader
  /-- The streams that it was last bound to. -/
  link : Option Link
  /-- The streams that it was bound to before, the first ones first. -/
  former : List Link
  /-- Whether it is bound to them. -/
  isBound : Bool
  /-- Whether the link is gone. -/
  isClosed : Bool
  /-- The waits that have not ended, the oldest first. -/
  waits : List Wait
  /-- The time. -/
  now : Number

/-- What a caller may ask of a client. -/
inductive Request where
  /-- Send a command. -/
  | send (c : Command)
  /-- Send a key, which is given by its name or as itself. -/
  | sendKey (name : String)
  /-- Write bytes into device memory from an address on. -/
  | writeMemory (address : Number) (bytes : Bytes)
  /-- Wait for the next event of a kind. -/
  | await (tag : EventTag) (limit : Option Number)
  /-- Ask for the registers. -/
  | dump (limit : Option Number)
  /-- Ask for bytes of memory. -/
  | readMemory (first last : Number) (limit : Option Number)
  /-- Ask for the bytes of the stack. -/
  | readStack (limit : Option Number)
  /-- Stop the device and let go of the streams. -/
  | close

namespace Client

/-- The time that a wait may take by default, in milliseconds. -/
def defaultTimeout : Number := 5000

/-- A client that was never bound. -/
def unbound (timeout : Option Number) : Client where
  timeout := timeout.getD defaultTimeout
  reader := .empty
  link := none
  former := []
  isBound := false
  isClosed := false
  waits := []
  now := 0

/-- Whether commands can be sent. -/
def isConnected (c : Client) : Bool := c.isBound && !c.isClosed

/-! ## Streams -/

/-- Listens to a pair of streams once more, and takes them for the link. -/
def listen (c : Client) (link : Link) : Client :=
  { c with
    link := some { link with listeners := link.listeners + 1 }
    isBound := true
    isClosed := false }

/-- Binds the client to a pair of streams that it does not have. It goes on listening to those that
it has, if it does. -/
def bind (c : Client) (link : Link) : Client :=
  listen { c with former := c.former ++ c.link.toList } link

/-- Binds the client once more to the streams it has; without any, to new ones. -/
def rebind (c : Client) : Client := c.listen (c.link.getD (.fresh none))

/-- The link with one listener less, if the client is bound to it. -/
def unheard (c : Client) : Option Link :=
  c.link.map fun link => if c.isBound then { link with listeners := link.listeners - 1 } else link

/-- The link is gone, unless it was before: every wait ends. -/
def lose (c : Client) : Client × List ClientTrace :=
  if c.isClosed then (c, [])
  else
    ({ c with isClosed := true, link := c.unheard, waits := [] },
      .closed :: c.waits.flatMap fun w => ClientTrace.ofWait w (.error (.closedWhileWaiting w.tag)))

/-- An event has come in: every wait for its kind ends. -/
def hear (c : Client) (e : Event) : Client × List ClientTrace :=
  ({ c with waits := c.waits.filter fun w => !w.awaits e },
    .event e :: (c.waits.filter fun w => w.awaits e).flatMap fun w =>
      ClientTrace.ofWait w (w.wanted.part e))

/-- Takes up items that were read. -/
def takeItems (c : Client) : List (Item Event) → Client × List ClientTrace
  | [] => (c, [])
  | .value e :: items =>
    let (c₁, t₁) := c.hear e
    let (c₂, t₂) := c₁.takeItems items
    (c₂, t₁ ++ t₂)
  | .malformed cause :: items =>
    let (c', t) := c.takeItems items
    (c', .malformed (.malformedEvent cause.message) :: t)

/-- Hears a chunk once. -/
def hearChunk (c : Client) (chunk : Bytes) : Client × List ClientTrace :=
  let (items, reader) := (c.reader.push chunk).drain Event.format
  takeItems { c with reader := reader } items

/-- Hears a chunk a number of times. -/
def hearTimes (c : Client) (chunk : Bytes) : Nat → Client × List ClientTrace
  | 0 => (c, [])
  | n + 1 =>
    let (c₁, t₁) := c.hearChunk chunk
    let (c₂, t₂) := c₁.hearTimes chunk n
    (c₂, t₁ ++ t₂)

/-- A chunk comes in on the source. -/
def receive (c : Client) (chunk : Bytes) : Client × List ClientTrace :=
  match c.link with
  | none => (c, [])
  | some link => if link.isOpen then c.hearTimes chunk link.listeners else (c, [])

/-- The source ends or fails. -/
def sourceEnded (c : Client) : Client × List ClientTrace :=
  match c.link with
  | none => (c, [])
  | some link =>
    if link.isOpen then lose { c with link := some { link with isOpen := false } } else (c, [])

/-- The sink fails. -/
def sinkFailed (c : Client) : Client × List ClientTrace :=
  match c.link with
  | none => (c, [])
  | some link =>
    let (sink, wasOpen) := link.sink.fail
    if wasOpen then lose { c with link := some { link with sink := sink } } else (c, [])

/-- Something happens on streams that the client was bound to before. What comes in is heard as far
as they are still listened to. Their end is taken for that of the present link. -/
def formerly (c : Client) (i : Nat) (x : Link.Happening) : Client × List ClientTrace :=
  match c.former[i]? with
  | none => (c, [])
  | some link =>
    match x with
    | .received chunk => if link.isOpen then c.hearTimes chunk link.listeners else (c, [])
    | .sourceEnded =>
      if link.isOpen then
        lose { c with former := c.former.set i { link with isOpen := false } }
      else (c, [])
    | .sinkFailed =>
      let (sink, wasOpen) := link.sink.fail
      if wasOpen then lose { c with former := c.former.set i { link with sink := sink } }
      else (c, [])

/-- Takes up a failed write after the work at hand. -/
def settle (c : Client) : Client × List ClientTrace :=
  match c.link with
  | none => (c, [])
  | some link =>
    match link.sink.settle with
    | (sink, some _) => lose { c with link := some { link with sink := sink } }
    | (_, none) => (c, [])

/-! ## Time -/

/-- Time goes on: every wait whose time is over ends. -/
def advance (c : Client) (elapsed : Number) : Client × List ClientTrace :=
  let now := c.now + elapsed
  ({ c with now := now, waits := c.waits.filter fun w => !w.isDue now },
    (Wait.due now c.waits).flatMap fun w => ClientTrace.ofWait w (.error (.timedOut w.limit w.tag)))

/-! ## Requests -/

/-- What a request has done at once. -/
structure Reply where
  /-- The client afterwards. -/
  client : Client
  /-- What it has let out. -/
  trace : List ClientTrace
  /-- Whether the call itself has failed. A query hands its faults over as its answer. -/
  result : Except Fault Unit

/-- Writes bytes to the sink. -/
def write (c : Client) (bytes : Bytes) : Client × List ClientTrace :=
  match c.link with
  | none => (c, [])
  | some link =>
    let (sink, made) := link.sink.write
    ({ c with link := some { link with sink := sink } }, if made then [.sent bytes] else [])

/-- Sends a command. -/
def send (c : Client) (command : Command) : Reply :=
  if c.isConnected then
    match command.encode with
    | .ok bytes =>
      let (c, t) := c.write bytes
      ⟨c, t, .ok ()⟩
    | .error f => ⟨c, [], .error f⟩
  else ⟨c, [], .error .notConnected⟩

/-- Sends commands up to the first that fails. -/
def sendAll (c : Client) : List Command → Reply
  | [] => ⟨c, [], .ok ()⟩
  | command :: commands =>
    let first := c.send command
    match first.result with
    | .error f => ⟨first.client, first.trace, .error f⟩
    | .ok () =>
      let rest := first.client.sendAll commands
      ⟨rest.client, first.trace ++ rest.trace, rest.result⟩

/-- Sends a key, which is given by its name or as itself. -/
def sendKey (c : Client) (name : String) : Reply :=
  match Key.resolve? name with
  | some key => c.send (.inputKey key)
  | none => ⟨c, [], .error (.unknownKey name)⟩

/-- Writes bytes into device memory from an address on, at most 255 with each command. -/
def writeMemory (c : Client) (address : Number) (bytes : Bytes) : Reply :=
  if Number.lt (0x10000 : Nat) (address + (bytes.length : Number)) then
    ⟨c, [], .error (.writeTooLong bytes.length address)⟩
  else c.sendAll (Script.pokes address bytes)

/-- The wait that a call would make. Its timer is set to the time that it may take. -/
def newWait (c : Client) (call : Option Nat) (tag : EventTag) (wanted : Wanted)
    (limit : Option Number) : Wait :=
  let limit := limit.getD c.timeout
  ⟨call, tag, wanted, limit, c.now + Wait.delay limit⟩

/-- Waits for the next event of a kind. -/
def await (c : Client) (call : Nat) (tag : EventTag) (limit : Option Number) :
    Client × List ClientTrace :=
  if c.isClosed then (c, [.settled call (.error (.closedWhileWaiting tag))])
  else ({ c with waits := c.waits ++ [c.newWait (some call) tag .event limit] }, [])

/-- Asks the device something. The wait starts before the command is sent; when the command cannot
be sent, the call fails with that fault and its wait goes on for nobody. -/
def query (c : Client) (call : Nat) (command : Command) (tag : EventTag) (wanted : Wanted)
    (limit : Option Number) : Client × List ClientTrace :=
  let waiting (call : Option Nat) : Client :=
    if c.isClosed then c else { c with waits := c.waits ++ [c.newWait call tag wanted limit] }
  let reply := (waiting (some call)).send command
  match reply.result with
  | .ok () => (reply.client, reply.trace)
  | .error f => (waiting none, [.settled call (.error f)])

/-- Asks for bytes of memory. -/
def readMemory (c : Client) (call : Nat) (first last : Number) (limit : Option Number) :
    Client × List ClientTrace :=
  if last.lt first then (c, [.settled call (.error (.rangeStart first))])
  else c.query call (.requestMemory first last) .memoryResult .bytes limit

/-- Stops the device, ends the sink and lets go of the streams. -/
def close (c : Client) : Client × List ClientTrace :=
  let (c₁, t₁) :=
    if c.isConnected then
      let reply := c.send .stop
      match reply.client.link with
      | none => (reply.client, reply.trace)
      | some link =>
        let (sink, wasOpen) := link.sink.finish
        ({ reply.client with link := some { link with sink := sink } },
          reply.trace ++ if wasOpen then [.ended] else [])
    else (c, [])
  let (c₂, t₂) := c₁.lose
  ({ c₂ with isBound := false }, t₁ ++ t₂)

/-- The effect of a request, before a failed write is taken up; `id` tells it from other requests.
-/
def call (c : Client) (id : Nat) (request : Request) : Reply :=
  let settled (r : Client × List ClientTrace) : Reply := ⟨r.1, r.2, .ok ()⟩
  match request with
  | .send command => c.send command
  | .sendKey name => c.sendKey name
  | .writeMemory address bytes => c.writeMemory address bytes
  | .await tag limit => settled (c.await id tag limit)
  | .dump limit => settled (c.query id .requestDump .dumpResult .snapshot limit)
  | .readMemory first last limit => settled (c.readMemory id first last limit)
  | .readStack limit => settled (c.query id .requestStack .stackResult .bytes limit)
  | .close => settled c.close

/-! ## Happenings -/

/-- What can happen to a client. -/
inductive Happening where
  /-- It is bound to new streams; their first write may be set up to fail. -/
  | bound (failure : Option String)
  /-- It is bound once more to the streams it has. -/
  | rebound
  /-- A chunk comes in. -/
  | received (chunk : Bytes)
  /-- The source ends or fails. -/
  | sourceEnded
  /-- The sink fails. -/
  | sinkFailed
  /-- Something happens on streams that it was bound to before. -/
  | formerly (i : Nat) (x : Link.Happening)
  /-- Milliseconds go by. -/
  | elapsed (time : Number)
  /-- A caller asks something of it. -/
  | called (call : Nat) (request : Request)

/-- The effect of a happening before a failed write is taken up. -/
def respond (c : Client) : Happening → Reply
  | .bound failure => ⟨c.bind (.fresh failure), [], .ok ()⟩
  | .rebound => ⟨c.rebind, [], .ok ()⟩
  | .received chunk => ⟨(c.receive chunk).1, (c.receive chunk).2, .ok ()⟩
  | .sourceEnded => ⟨c.sourceEnded.1, c.sourceEnded.2, .ok ()⟩
  | .sinkFailed => ⟨c.sinkFailed.1, c.sinkFailed.2, .ok ()⟩
  | .formerly i x => ⟨(c.formerly i x).1, (c.formerly i x).2, .ok ()⟩
  | .elapsed time => ⟨(c.advance time).1, (c.advance time).2, .ok ()⟩
  | .called id request => c.call id request

/-- The effect of a happening. -/
def happen (c : Client) (h : Happening) : Reply :=
  let reply := c.respond h
  let (c', t) := reply.client.settle
  ⟨c', reply.trace ++ t, reply.result⟩

/-- The effect of happenings, one after the other. -/
def run (c : Client) : List Happening → Client × List ClientTrace
  | [] => (c, [])
  | h :: hs =>
    let first := c.happen h
    let (c', t) := first.client.run hs
    (c', first.trace ++ t)

/-- A run of two lists of happenings is the run of the first and then that of the second, and the
trace is that of both. -/
theorem run_append (c : Client) (xs ys : List Happening) :
    c.run (xs ++ ys) = ((c.run xs).1.run ys |>.1, (c.run xs).2 ++ ((c.run xs).1.run ys).2) := by
  induction xs generalizing c with
  | nil => rfl
  | cons x xs ih => simp [run, ih, List.append_assoc]

end Client

end DebugWire
