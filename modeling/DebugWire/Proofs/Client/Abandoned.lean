import DebugWire.Proofs.Client.Waiting

set_option relaxedAutoImplicit false
set_option autoImplicit false

/-!
# What a query that fails leaves behind

A query starts to wait for its answer, and then sends its command. When the command cannot be sent
the query fails, and its wait goes on for nobody: it ends with the next answer of its kind, which is
lost, or with a fault that nobody hears of. On a closed client a wait ends at once, so there the
fault has come before the query fails. Only a range that begins behind its end is refused before
there is a wait.

The wait is followed here as a promise of its own, which a query takes up when its command is sent.

## Main definitions

* `DebugWire.Client.waitFor` — a wait for the answer to a query.
* `DebugWire.Client.callVia` — a request whose wait is a promise of its own.
* `DebugWire.Client.Leaves` — the waits and the faults that a query leaves behind.

## Main results

* `DebugWire.Client.call_eq_callVia` — a query that is sent.
* `DebugWire.Client.leaves_call` — a query that cannot be sent.
* `DebugWire.Client.not_leaves_nothing_of_unbound` — a query that leaves something behind.
-/

namespace DebugWire

/-! ## Requests -/

/-- The time for which the caller lets a query wait, if it says so. -/
def Request.limit? : Request → Option Number
  | dump limit | readMemory _ _ limit | readStack limit => limit
  | _ => none

/-- Whether a range of memory begins behind its end. -/
def Request.isReversed : Request → Bool
  | readMemory first last _ => last.lt first
  | _ => false

namespace Client

variable {c : Client} {id promise : ℕ} {request : Request} {own : Command} {q : Query}

/-! ## Step by step -/

/-- Waits for the answer to a query, for a promise. On a closed client the promise fails at once. -/
def waitFor (c : Client) (promise : ℕ) (tag : EventTag) (wanted : Wanted) (limit : Option Number) :
    Client × List ClientTrace :=
  if c.isClosed then (c, [.settled promise (.error (.closedWhileWaiting tag))])
  else ({ c with waits := c.waits ++ [c.newWait (some promise) tag wanted limit] }, [])

/-- Asks the device something, with a promise for the wait. When the command cannot be sent the call
fails, and the promise is left alone. -/
def queryVia (c : Client) (promise call : ℕ) (command : Command) (tag : EventTag) (wanted : Wanted)
    (limit : Option Number) : Client × List ClientTrace :=
  let (c₁, t₁) := c.waitFor promise tag wanted limit
  let reply := c₁.send command
  match reply.result with
  | .ok () => (reply.client, t₁ ++ reply.trace)
  | .error f => (reply.client, t₁ ++ reply.trace ++ [.settled call (.error f)])

/-- The effect of a request whose wait, if it is a query, is a promise. -/
def callVia (c : Client) (promise id : ℕ) (request : Request) : Client × List ClientTrace :=
  match request with
  | .dump limit => c.queryVia promise id .requestDump .dumpResult .snapshot limit
  | .readMemory first last limit =>
    if last.lt first then (c, [.settled id (.error (.rangeStart first))])
    else c.queryVia promise id (.requestMemory first last) .memoryResult .bytes limit
  | .readStack limit => c.queryVia promise id .requestStack .stackResult .bytes limit
  | request => ((c.call id request).client, (c.call id request).trace)

/-! ## Sending -/

/-- Whether a command can be sent does not depend on the waits. -/
lemma result_send_withWaits (c : Client) (waits : List Wait) (command : Command) :
    (send { c with waits := waits } command).result = (c.send command).result := by
  unfold send
  have hconnected : ({ c with waits := waits } : Client).isConnected = c.isConnected := rfl
  rw [hconnected]
  split_ifs
  · cases command.encode <;> rfl
  · rfl

/-- A command that cannot be sent leaves a client as it is, and nothing is written.

**Proof sketch.** A client without a link and a command that does not encode are the two ways for
sending to fail, and both leave everything as it is. -/
lemma send_of_error {command : Command} {f : Fault} (h : (c.send command).result = .error f) :
    c.send command = ⟨c, [], .error f⟩ := by
  unfold send at h ⊢
  split_ifs at h ⊢
  · cases he : command.encode with
    | ok bytes =>
      rw [he] at h
      cases h
    | error f' =>
      rw [he] at h
      exact congrArg (Reply.mk c []) h
  · exact congrArg (Reply.mk c []) h

/-- A command is sent by a connected client if it can be written, and otherwise not. -/
lemma exists_error_send_iff {command : Command} :
    (∃ f, (c.send command).result = .error f) ↔ c.isConnected = false ∨ ¬ command.Encodes := by
  unfold send Command.Encodes
  cases c.isConnected with
  | false => simp
  | true => cases command.encode <;> simp

/-! ## Queries -/

/-- What a query that fails *leaves* behind: waits that go on for nobody, and faults of promises
that nobody hears of. The call fails and nothing is written. Step by step, the waits are those of
the promise, and the faults are what it fails with before the call does. -/
structure Leaves (c : Client) (id promise : ℕ) (request : Request) (f : Fault) (waits : List Wait)
    (faults : List Fault) : Prop where
  trace : (c.call id request).trace = [.settled id (.error f)]
  client : (c.call id request).client = { c with waits := c.waits ++ waits }
  abandoned : ∀ w ∈ waits, w.call = none
  steps : c.callVia promise id request =
    ({ c with waits := c.waits ++ waits.map fun w => { w with call := some promise } },
      (faults.map fun g => .settled promise (.error g)) ++ [.settled id (.error f)])

/-- A query whose command cannot be sent.

**Proof sketch.** The wait is made before the command is sent, so it is there when sending fails,
unless the client is closed. Whether sending fails does not depend on the waits. -/
lemma query_of_error {command : Command} {f : Fault} (h : (c.send command).result = .error f)
    (id promise : ℕ) (tag : EventTag) (wanted : Wanted) (limit : Option Number) :
    c.query id command tag wanted limit =
      ({ c with waits := c.waits ++ if c.isClosed then [] else [c.newWait none tag wanted limit] },
        [.settled id (.error f)]) ∧
    c.queryVia promise id command tag wanted limit =
      ({ c with waits :=
        c.waits ++ if c.isClosed then [] else [c.newWait (some promise) tag wanted limit] },
        (if c.isClosed then [.settled promise (.error (.closedWhileWaiting tag))] else []) ++
          [.settled id (.error f)]) := by
  rcases Bool.eq_false_or_eq_true c.isClosed with hc | hc
  · simp only [query, queryVia, waitFor, if_pos hc, send_of_error h, List.append_nil, and_self]
  · have hn : ¬ c.isClosed = true := Bool.eq_false_iff.1 hc
    have hwaits (waits : List Wait) : (send { c with waits := waits } command).result = .error f :=
      (result_send_withWaits c waits command).trans h
    simp only [query, queryVia, waitFor, if_neg hn, send_of_error (hwaits _), List.append_nil,
      List.nil_append, and_self]

/-- A query whose command is sent: its wait is that of the call. -/
lemma query_of_ok {command : Command} (h : (c.send command).result = .ok ()) (id : ℕ)
    (tag : EventTag) (wanted : Wanted) (limit : Option Number) :
    c.query id command tag wanted limit = c.queryVia id id command tag wanted limit := by
  have hc : ¬ c.isClosed = true := fun hc => by
    rw [send, isConnected_of_isClosed hc] at h
    cases h
  have hwaits (waits : List Wait) : (send { c with waits := waits } command).result = .ok () :=
    (result_send_withWaits c waits command).trans h
  simp only [query, queryVia, waitFor, if_neg hc, hwaits, List.nil_append]

/-- **A query that is sent** takes up the promise for which it waits.

**Proof sketch.** One case for each kind of query. Since its command is sent, the call takes the
path of `query_of_ok`, in which the promise is the call itself. -/
theorem call_eq_callVia (hown : request.command? = some own) (hr : request.isReversed = false)
    (hsent : (c.send own).result = .ok ()) (id : ℕ) :
    ((c.call id request).client, (c.call id request).trace) = c.callVia id id request := by
  cases request with
  | dump limit | readStack limit =>
    obtain rfl := Option.some.inj hown
    exact query_of_ok hsent id _ _ _
  | readMemory first last limit =>
    obtain rfl := Option.some.inj hown
    have hr : ¬ last.lt first = true := Bool.eq_false_iff.1 hr
    rw [callVia, if_neg hr, call, readMemory, if_neg hr]
    exact query_of_ok hsent id _ _ _
  | send | sendKey | writeMemory | await | close => cases hown

/-- The parts of a query whose command cannot be sent.

**Proof sketch.** The query is compared to the one behind a promise of its own: both add the wait
first and send the command then, which fails. What is left is that wait, if the client was open when
it was added. -/
lemma leaves_of_error {f : Fault} {tag : EventTag} {wanted : Wanted} {limit : Option Number}
    (hcall : ((c.call id request).client, (c.call id request).trace) =
      c.query id own tag wanted limit)
    (hvia : c.callVia promise id request = c.queryVia promise id own tag wanted limit)
    (h : (c.send own).result = .error f) :
    Leaves c id promise request f (if c.isClosed then [] else [c.newWait none tag wanted limit])
      (if c.isClosed then [.closedWhileWaiting tag] else []) := by
  obtain ⟨hquery, hqueryVia⟩ := query_of_error h id promise tag wanted limit
  obtain ⟨hclient, htrace⟩ := Prod.mk.inj (hcall.trans hquery)
  refine ⟨htrace, hclient, fun w hw => ?_, ?_⟩
  · split_ifs at hw
    · cases hw
    · rw [List.mem_singleton.1 hw]
      rfl
  · rw [hvia, hqueryVia]
    split_ifs <;> rfl

/-- **A query that cannot be sent** fails, and nothing is written. On a client that is not closed it
leaves a wait behind, and on a closed one the fault of a promise that nobody hears of. It leaves
nothing behind exactly if the range that it asks for begins behind its end.

**Proof sketch.** A range that begins behind its end is refused before anything else is done.
Otherwise the call is a query whose command cannot be sent, and `leaves_of_error` says what that
leaves. -/
theorem leaves_call (c : Client) (id promise : ℕ) (hown : request.command? = some own)
    (hq : own.query? = some q)
    (hunsent : request.isReversed = true ∨ c.isConnected = false ∨ ¬ own.Encodes) :
    ∃ f waits faults, Leaves c id promise request f waits faults ∧
      (request.isReversed = false → (c.send own).result = .error f) ∧
      waits = (if request.isReversed ||
        c.isClosed then [] else [c.newWait none q.tag q.wanted request.limit?]) ∧
      faults = (if request.isReversed || !c.isClosed then [] else [.closedWhileWaiting q.tag]) ∧
      (waits = [] ∧ faults = [] ↔ request.isReversed = true) := by
  cases hr : request.isReversed with
  | true =>
    cases request with
    | readMemory first last limit =>
      have hr : last.lt first = true := hr
      refine ⟨.rangeStart first, [], [], ?_, nofun, rfl, rfl, iff_of_true ⟨rfl, rfl⟩ rfl⟩
      have hclient : ({ c with waits := c.waits ++ [] } : Client) = c := by rw [List.append_nil]
      refine ⟨?_, ?_, fun _ hw => absurd hw List.not_mem_nil, ?_⟩
      · simp only [call, readMemory, if_pos hr]
      · simp only [call, readMemory, if_pos hr, hclient]
      · simp only [callVia, if_pos hr, List.map_nil, hclient, List.nil_append]
    | dump | readStack | send | sendKey | writeMemory | await | close => cases hr
  | false =>
    obtain ⟨f, hf⟩ := exists_error_send_iff.2 (hunsent.resolve_left (Bool.eq_false_iff.1 hr))
    have hleaves : Leaves c id promise request f
        (if c.isClosed then [] else [c.newWait none q.tag q.wanted request.limit?])
        (if c.isClosed then [.closedWhileWaiting q.tag] else []) := by
      cases request with
      | dump limit | readStack limit =>
        obtain rfl := Option.some.inj hown
        obtain rfl := Option.some.inj hq
        exact leaves_of_error rfl rfl hf
      | readMemory first last limit =>
        obtain rfl := Option.some.inj hown
        obtain rfl := Option.some.inj hq
        have hr : ¬ last.lt first = true := Bool.eq_false_iff.1 hr
        have hcall : ((c.call id (.readMemory first last limit)).client,
            (c.call id (.readMemory first last limit)).trace) =
            c.query id (.requestMemory first last) .memoryResult .bytes limit := by
          rw [call, readMemory, if_neg hr]
        have hvia : c.callVia promise id (.readMemory first last limit) =
            c.queryVia promise id (.requestMemory first last) .memoryResult .bytes limit := by
          rw [callVia, if_neg hr]
        exact leaves_of_error hcall hvia hf
      | send | sendKey | writeMemory | await | close => cases hown
    refine ⟨f, _, _, hleaves, fun _ => hf, by rw [Bool.false_or], ?_, ?_⟩
    · cases c.isClosed <;> rfl
    · cases c.isClosed <;> simp

/-- A client that was never bound asks for the registers. -/
theorem leaves_call_of_unbound :
    ∃ f waits faults, Leaves (unbound none) 0 1 (.dump none) f waits faults ∧ faults = [] ∧
      waits = [(unbound none).newWait none .dumpResult .snapshot none] := by
  have hown : Request.command? (.dump none) = some .requestDump := rfl
  obtain ⟨f, waits, faults, h, -, hwaits, hfaults, -⟩ :=
    leaves_call (unbound none) 0 1 hown rfl (.inr (.inl rfl))
  exact ⟨f, waits, faults, h, hfaults, hwaits⟩

/-- A client that was never bound asks for the registers: the call fails, and its wait goes on. A
client that was closed asks for them: the call fails, and before that a promise that nobody hears
of. -/
theorem not_leaves_nothing_of_unbound :
    ((unbound none).call 0 (.dump none)).trace = [.settled 0 (.error .notConnected)] ∧
      ((unbound none).call 0 (.dump none)).client.waits ≠ (unbound none).waits ∧
      ((unbound none).close.1.callVia 1 0 (.dump none)).2 =
        [.settled 1 (.error (.closedWhileWaiting .dumpResult)),
          .settled 0 (.error .notConnected)] := by
  refine ⟨rfl, ?_, rfl⟩
  exact List.cons_ne_nil _ _

end Client

end DebugWire
