import DebugWire.Proofs.Client.Exchange
import DebugWire.Proofs.Client.Hearing

set_option relaxedAutoImplicit false
set_option autoImplicit false

/-!
# What a client sends

Each request stands for commands. An open client sends them in order, up to the first that cannot be
written; a closed one sends none. Unless the request is to close, nothing else comes of it than that
calls are settled. What a session reads in the frames of a command is the command as these carry it.

## Main definitions

* `DebugWire.Request.commands` — the commands that a request stands for.
* `DebugWire.ClientTrace.Outgoing` — a trace of writes and of calls that were settled.
* `DebugWire.Client.sends` — the commands that a client sends of some.

## Main results

* `DebugWire.Client.Attached.asked_call` — the commands that a request sends.
* `DebugWire.Client.outgoing_call` — what else comes of a request.
-/

namespace DebugWire

/-! ## Requests -/

/-- Whether a command can be written. -/
def Command.isWritable (c : Command) : Bool := c.encode.toOption.isSome

/-- A command can be written exactly if it has a frame. -/
lemma Command.isWritable_iff {c : Command} : c.isWritable = true ↔ c.Encodes := by
  rw [isWritable, Encodes]
  cases c.encode <;> simp [Except.toOption]

/-- The commands that a request stands for. A range that begins behind its end, bytes that would be
written beyond the last address, and an unknown key stand for none. -/
def Request.commands : Request → List Command
  | send c => [c]
  | sendKey name => ((Key.resolve? name).map .inputKey).toList
  | writeMemory address bytes =>
    if Number.lt (0x10000 : Nat) (address + (bytes.length : Number)) then [] else Script.pokes
      address bytes
  | await .. => []
  | dump _ => [.requestDump]
  | readMemory first last _ => if last.lt first then [] else [.requestMemory first last]
  | readStack _ => [.requestStack]
  | close => [.stop]

/-! ## Traces -/

namespace ClientTrace

/-- Whether a write was made or a call was settled. -/
def isOutgoing : ClientTrace → Bool
  | sent _ | settled .. => true
  | ended | event _ | malformed _ | closed => false

/-- A trace is *outgoing*: it tells of writes and of calls that were settled, and of nothing else.
-/
def Outgoing (trace : List ClientTrace) : Prop := ∀ t ∈ trace, t.isOutgoing = true

/-- Nothing is outgoing, as there is no entry of another kind in it. -/
lemma outgoing_nil : Outgoing [] := fun _ ht => absurd ht List.not_mem_nil

/-- A frame that is written is outgoing, and is all that such a trace has. -/
lemma outgoing_sent (bytes : Bytes) : Outgoing [sent bytes] := fun t ht => by
  rw [List.mem_singleton.1 ht]
  rfl

/-- Settling a call is outgoing, whatever its result is. -/
lemma outgoing_settled (call : ℕ) (result : Except Fault Answer) : Outgoing [settled call result] :=
  fun t ht => by
  rw [List.mem_singleton.1 ht]
  rfl

/-- Two outgoing traces are outgoing together, put one behind the other. -/
lemma Outgoing.append {t t' : List ClientTrace} (h : Outgoing t) (h' : Outgoing t') :
    Outgoing (t ++ t') :=
  fun x hx => (List.mem_append.1 hx).elim (h x) (h' x)

/-- Waits that end only settle their calls, so what they let out is outgoing. -/
lemma outgoing_ofWaits (waits : List Wait) (f : Wait → Except Fault Answer) :
    Outgoing (waits.flatMap fun w => ofWait w (f w)) := by
  intro t ht
  obtain ⟨w, -, hw⟩ := List.mem_flatMap.1 ht
  unfold ofWait at hw
  split at hw
  · exact outgoing_settled _ _ t hw
  · cases hw

/-- Writes and settled calls are silent: nothing is decoded by them and nothing closed. -/
lemma Outgoing.silent {trace : List ClientTrace} (h : Outgoing trace) : Silent trace := by
  intro t ht
  have hout := h t ht
  cases t with
  | sent _ | settled _ _ => exact ⟨rfl, rfl⟩
  | ended | event _ | malformed _ | closed => cases hout

/-- What a session sees of writes are chunks; of settled calls it sees nothing. -/
lemma Outgoing.exists_received {trace : List ClientTrace} (h : Outgoing trace) :
    ∀ y ∈ trace.filterMap Pair.seen?, ∃ chunk, y = .received chunk := by
  intro y hy
  obtain ⟨t, ht, hseen⟩ := List.mem_filterMap.1 hy
  have hout := h t ht
  cases t with
  | sent bytes => exact ⟨bytes, (Option.some.inj hseen).symm⟩
  | settled _ _ => cases hseen
  | ended | event _ | malformed _ | closed => cases hout

end ClientTrace

/-! ## Calls -/

namespace Client

open ClientTrace (Outgoing asked)

variable {c : Client} {id : ℕ}

/-- Sending a command writes its frame, if anything.

**Proof sketch.** Nothing is written without a link, for a command that has no encoding, or on a
sink that does not take the bytes. -/
lemma outgoing_send (c : Client) (command : Command) : Outgoing (c.send command).trace := by
  unfold send
  split_ifs
  · cases command.encode with
    | error f => exact ClientTrace.outgoing_nil
    | ok bytes =>
      dsimp only
      unfold write
      cases c.link with
      | none => exact ClientTrace.outgoing_nil
      | some link =>
        dsimp only
        split_ifs
        · exact ClientTrace.outgoing_sent bytes
        · exact ClientTrace.outgoing_nil
  · exact ClientTrace.outgoing_nil

/-- Sending commands one after the other writes frames, and nothing else comes of it.

**Proof sketch.** Induction on the commands, one send after the other. -/
lemma outgoing_sendAll (c : Client) (commands : List Command) :
    Outgoing (c.sendAll commands).trace := by
  induction commands generalizing c with
  | nil => exact ClientTrace.outgoing_nil
  | cons command commands ih =>
    have hfirst := outgoing_send c command
    rw [sendAll]
    dsimp only
    cases (c.send command).result with
    | error f => exact hfirst
    | ok _ => exact hfirst.append (ih (c.send command).client)

/-- A query writes the frame of its command, or settles its call with the fault. -/
lemma outgoing_query (c : Client) (id : ℕ) (command : Command) (tag : EventTag) (wanted : Wanted)
    (limit : Option Number) : Outgoing (c.query id command tag wanted limit).2 := by
  unfold query
  dsimp only
  split
  · exact outgoing_send _ command
  · exact ClientTrace.outgoing_settled _ _

/-- **What comes of a request**, other than the one to close: writes, and calls that are settled.

**Proof sketch.** One case for each request, with the lemma about the part of the client that it
uses. -/
theorem outgoing_call (c : Client) (id : ℕ) {request : Request} (h : request ≠ .close) :
    Outgoing (c.call id request).trace := by
  cases request with
  | send command => exact outgoing_send c command
  | sendKey name =>
    rw [call, sendKey]
    cases Key.resolve? name with
    | some key => exact outgoing_send c (.inputKey key)
    | none => exact ClientTrace.outgoing_nil
  | writeMemory address bytes =>
    rw [call, writeMemory]
    split_ifs
    · exact ClientTrace.outgoing_nil
    · exact outgoing_sendAll c _
  | await tag limit =>
    rw [call, await]
    split_ifs
    · exact ClientTrace.outgoing_settled _ _
    · exact ClientTrace.outgoing_nil
  | dump limit => exact outgoing_query c id _ _ _ limit
  | readMemory first last limit =>
    rw [call, readMemory]
    split_ifs
    · exact ClientTrace.outgoing_settled _ _
    · exact outgoing_query c id _ _ _ limit
  | readStack limit => exact outgoing_query c id _ _ _ limit
  | close => exact absurd rfl h

/-! ## Attached clients -/

/-- A closed client refuses every command, since it is not connected, and stays as it is. -/
lemma send_of_isClosed (hc : c.isClosed = true) (command : Command) :
    c.send command = ⟨c, [], .error .notConnected⟩ := by
  rw [send, isConnected_of_isClosed hc, if_neg Bool.false_ne_true]

/-- An open client that is attached writes the frame of a command that has one, and refuses the
others. -/
lemma Attached.send_of_isOpen (h : Attached c) (hc : c.isClosed = false) (command : Command) :
    c.send command = match command.encode with
      | .ok bytes => ⟨c, [.sent bytes], .ok ()⟩
      | .error f => ⟨c, [], .error f⟩ := by
  rw [send, h.isConnected hc, if_pos rfl]
  cases command.encode with
  | error f => rfl
  | ok bytes =>
    have hl := (h.isOpen hc).2
    obtain ⟨timeout, reader, link, former, isBound, isClosed, waits, now⟩ := c
    obtain rfl : link = some ⟨1, true, .fresh none⟩ := hl
    rfl

/-- The query of a closed client fails: no wait is added, and the call is settled with the fault. -/
lemma query_of_isClosed (hc : c.isClosed = true) (id : ℕ) (command : Command) (tag : EventTag)
    (wanted : Wanted) (limit : Option Number) :
    c.query id command tag wanted limit = (c, [.settled id (.error .notConnected)]) := by
  simp only [query, if_pos hc, send_of_isClosed hc]

/-- The query of an open client that is attached adds a wait. It writes the frame of its command, or
fails if that has none; then the wait is for nobody. -/
lemma Attached.query_of_isOpen (h : Attached c) (hc : c.isClosed = false) (id : ℕ)
    (command : Command) (tag : EventTag) (wanted : Wanted) (limit : Option Number) :
    c.query id command tag wanted limit = match command.encode with
      | .ok bytes =>
        ({ c with waits := c.waits ++ [c.newWait (some id) tag wanted limit] }, [.sent bytes])
      | .error f =>
        ({ c with waits := c.waits ++ [c.newWait none tag wanted limit] },
          [.settled id (.error f)]) := by
  have hn : ¬ c.isClosed = true := Bool.eq_false_iff.1 hc
  have ha := h.withWaits hc (c.waits ++ [c.newWait (some id) tag wanted limit])
  simp only [query, if_neg hn, ha.send_of_isOpen hc]
  cases command.encode <;> rfl

/-- The commands that a client sends of some: up to the first that cannot be written, and none if it
is closed. -/
def sends (c : Client) (commands : List Command) : List Command :=
  if c.isClosed then [] else commands.takeWhile Command.isWritable

/-- A closed client sends nothing, of whatever commands it is given. -/
lemma sends_of_isClosed (hc : c.isClosed = true) (commands : List Command) :
    c.sends commands = [] := if_pos hc

/-- A client sends nothing of no commands, connected or not. -/
lemma sends_nil (c : Client) : c.sends [] = [] := ite_self []

/-- Nor do its frames carry anything then, so that nothing reaches the machine. -/
lemma map_carried_sends_nil (c : Client) : (c.sends []).map Command.carried = [] := by
  rw [sends_nil, List.map_nil]

/-- An open client sends a command that can be written, and goes on with the others. -/
lemma sends_cons_of_encode (hc : c.isClosed = false) {command : Command} {bytes : Bytes}
    (he : command.encode = .ok bytes) (commands : List Command) :
    c.sends (command :: commands) = command :: c.sends commands := by
  have hw : command.isWritable = true := Command.isWritable_iff.2 ⟨bytes, he⟩
  rw [sends, sends, hc, List.takeWhile_cons_of_pos hw]
  rfl

/-- A client sends nothing of commands of which the first cannot be written. -/
lemma sends_cons_of_error (c : Client) {command : Command} {f : Fault}
    (he : command.encode = .error f)
    (commands : List Command) : c.sends (command :: commands) = [] := by
  have hw : ¬ command.isWritable = true := by
    rw [Command.isWritable, he]
    exact Bool.false_ne_true
  rw [sends, List.takeWhile_cons_of_neg hw, ite_self]

/-- What sending a command asks is that command as its frame carries it, if it is sent.

**Proof sketch.** A closed client sends nothing. An open one sends exactly the commands that have an
encoding. -/
lemma Attached.asked_send (h : Attached c) (command : Command) :
    asked (c.send command).trace = (c.sends [command]).map Command.carried := by
  cases hc : c.isClosed with
  | true =>
    rw [send_of_isClosed hc, sends_of_isClosed hc]
    rfl
  | false =>
    rw [h.send_of_isOpen hc]
    cases he : command.encode with
    | error f =>
      rw [sends_cons_of_error c he]
      rfl
    | ok bytes =>
      rw [sends_cons_of_encode hc he, sends_nil]
      exact Exchange.asked_sent he

/-- What sending commands asks are those before the first that is refused, as their frames carry
them.

**Proof sketch.** Induction on the commands. If the first one is written, the client is as before,
so the rest is sent by the same client; if it is refused, nothing more is sent. -/
lemma Attached.asked_sendAll (h : Attached c) (commands : List Command) :
    asked (c.sendAll commands).trace = (c.sends commands).map Command.carried := by
  induction commands with
  | nil => exact (map_carried_sends_nil c).symm
  | cons command commands ih =>
    rw [sendAll]
    cases hc : c.isClosed with
    | true =>
      rw [send_of_isClosed hc, sends_of_isClosed hc]
      rfl
    | false =>
      rw [h.send_of_isOpen hc]
      cases he : command.encode with
      | error f =>
        rw [sends_cons_of_error c he]
        rfl
      | ok bytes =>
        have hsent : asked [.sent bytes] = [command.carried] := Exchange.asked_sent he
        rw [sends_cons_of_encode hc he, List.map_cons, ← ih]
        exact (Exchange.asked_append _ _).trans (congrArg (· ++ _) hsent)

/-- What a query asks is its command, if it is sent; the wait asks nothing.

**Proof sketch.** A closed client asks nothing and sends nothing. An open one sends its command if
that can be encoded, and then it asks for what the frame carries. -/
lemma Attached.asked_query (h : Attached c) (id : ℕ) (command : Command) (tag : EventTag)
    (wanted : Wanted) (limit : Option Number) :
    asked (c.query id command tag wanted limit).2 = (c.sends [command]).map Command.carried := by
  cases hc : c.isClosed with
  | true =>
    rw [query_of_isClosed hc, sends_of_isClosed hc]
    rfl
  | false =>
    rw [h.query_of_isOpen hc]
    cases he : command.encode with
    | error f =>
      rw [sends_cons_of_error c he]
      rfl
    | ok bytes =>
      rw [sends_cons_of_encode hc he, sends_nil]
      exact Exchange.asked_sent he

/-- **The commands that a request sends** are those of the ones it stands for, as their frames carry
them.

**Proof sketch.** One case for each request. A text that names no key and a range that is out of
order stand for no command at all. -/
theorem Attached.asked_call (h : Attached c) (id : ℕ) {request : Request}
    (hreq : request ≠ .close) :
    asked (c.call id request).trace = (c.sends request.commands).map Command.carried := by
  cases request with
  | send command => exact h.asked_send command
  | sendKey name =>
    rw [call, sendKey, Request.commands]
    cases Key.resolve? name with
    | some key => exact h.asked_send (.inputKey key)
    | none => exact (map_carried_sends_nil c).symm
  | writeMemory address bytes =>
    rw [call, writeMemory, Request.commands]
    split_ifs
    · exact (map_carried_sends_nil c).symm
    · exact h.asked_sendAll _
  | await tag limit =>
    rw [Request.commands, sends_nil, call, await]
    split_ifs <;> rfl
  | dump limit => exact h.asked_query id _ _ _ _
  | readMemory first last limit =>
    rw [call, readMemory, Request.commands]
    split_ifs
    · exact (map_carried_sends_nil c).symm
    · exact h.asked_query id _ _ _ _
  | readStack limit => exact h.asked_query id _ _ _ _
  | close => exact absurd rfl hreq

end Client

end DebugWire
