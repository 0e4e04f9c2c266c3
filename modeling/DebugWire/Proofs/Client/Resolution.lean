import DebugWire.Proofs.Client.Exchange

set_option relaxedAutoImplicit false
set_option autoImplicit false

/-!
# Queries that resolve

Answers carry no mark of the request that they answer: a query takes the next answer of its kind
that the client hears. So it resolves with what was computed for the first command of its kind whose
answer had not come in when the query was made. That is its own command only if the session answers
it and no answer to an earlier one of its kind was still to come. A query that is refused by the
session goes on to wait, and takes the answer to a later one.

## Main definitions

* `DebugWire.Exchange.Resolves` — the command that a query has the answer of.

## Main results

* `DebugWire.Exchange.resolves_run_start` — a query that resolves.
* `DebugWire.Exchange.not_computes_of_refused_read` — a query that resolves with the answer to
  another one.
-/

namespace DebugWire

deriving instance DecidableEq for ClientTrace

namespace Exchange

open ClientTrace (asked heard)
open SessionTrace (commands)

variable {e : Engine} {x : Exchange} {t : Trace}

/-- A query that was made when the client had let out the trace `earlier` *resolves* with an answer
in an exchange that has let out the trace `t`: with the answer to the command in place `i`. The
command of the query is the next one behind those that were written before. -/
structure Resolves (e : Engine) (earlier : List ClientTrace) (t : Trace) (id : ℕ) (own : Command)
    (q : Query) (a : Answer) (i : ℕ) : Prop where
  /-- It resolves once: when it has failed it takes no answer. -/
  once : ∀ r, .settled id r ∈ t.client → r = .ok a
  /-- The session handles the commands that the client writes, in order. -/
  handled : commands t.session <+: asked t.client
  /-- Its own command is one of them. -/
  own : (asked t.client)[(asked earlier).length]? = some own
  /-- The answer is the one that the engine computes for the command in place `i`. -/
  computes : e.Computes (commands t.session) i q a
  /-- That is the first command of the kind with an answer that the client had not heard when the
  query was made. -/
  first : (Engine.answersTo q e ((commands t.session).take i)).length = (heard q earlier).length
  /-- It is the command of the query exactly if the engine computes an answer for that, and the
  client had heard the answers to all commands of the kind before it. -/
  isOwn_iff : i = (asked earlier).length ↔
    (∃ b, e.Computes (commands t.session) (asked earlier).length q b) ∧
      (Engine.answersTo q e ((commands t.session).take (asked earlier).length)).length =
        (heard q earlier).length

/-- A query that is made in a consistent exchange, if it resolves.

**Proof sketch.** The call is pursued, so it is settled with an event that the client has heard, and
the events that are heard are a prefix of the answers. The answer at that place was computed for
some command, which is the `i` of the statement. It is the query's own exactly if the session
answers that and as many answers were to come before. -/
lemma Consistent.resolves (h : Consistent e x t) {id : ℕ} (hid : x.client.tally id t.client = 0)
    {request : Request} {own : Command} {q : Query} (hown : request.command? = some own)
    (hq : own.query? = some q) {after : List Happening}
    (hafter : ∀ request', .called id request' ∉ after) {a : Answer}
    (ha : .settled id (.ok a) ∈ (t ++ (x.run (.called id request :: after)).2).client) :
    ∃ i, Resolves e t.client (t ++ (x.run (.called id request :: after)).2) id own q a i := by
  obtain ⟨hcalled, hmade⟩ := h.attached.pursues_called hid hown hq
  have hend := (h.run (.called id request :: after)).1
  have hp : Client.Pursues id q (ClientTrace.heard q t.client).length
      (x.run (.called id request :: after)).1.client (t ++
        (x.run (.called id request :: after)).2).client := by
    have hlater := (((h.happen (.called id request)).1.run after).2 id hafter).pursues hcalled
    rw [List.append_assoc] at hlater
    exact hlater
  -- The query is settled with an event that the client has heard, and that answers a command.
  obtain ⟨ev, hev, hpart⟩ := hp.settled a ha
  obtain ⟨rest, hrest⟩ := hend.heard_prefix q
  have hanswer :
      (Engine.answersTo q e (commands (t ++ (x.run (.called id request :: after)).2).session))[
        (ClientTrace.heard q t.client).length]? = some ev := by
    rw [← hrest, List.getElem?_append_left (List.getElem?_eq_some_iff.1 hev).1, hev]
  obtain ⟨i, hcomputes, hfirst⟩ :=
    Engine.exists_computes_of_answersTo (fun c hc => hend.encodes c (hend.handled.subset hc))
      hanswer hpart
  refine ⟨i, {
    once := fun r hr => Client.settled_unique hp.tally hr ha
    handled := hend.handled
    own := ?_
    computes := hcomputes
    first := hfirst
    isOwn_iff := ?_ }⟩
  · rcases hmade with ⟨f, hf⟩ | ⟨bytes, he, ht⟩
    · have hf' : .settled id (.error f) ∈ (t ++ (x.run (.called id request :: after)).2).client :=
        List.mem_append_right _ (List.mem_append_left _ hf)
      cases Client.settled_unique hp.tally hf' ha
    · have hsent : (x.run (.called id request :: after)).2.client =
          [.sent bytes] ++ ((x.happen (.called id request)).1.run after).2.client := by
        rw [← ht]
        rfl
      have hcarried : own.carried = own := Command.carried_of_query? hq
      rw [client_append, hsent, asked_append, asked_append, asked_sent he, hcarried,
        List.getElem?_append_right (Nat.le_refl _), Nat.sub_self]
      rfl
  · constructor
    · rintro rfl
      exact ⟨⟨a, hcomputes⟩, hfirst⟩
    · rintro ⟨⟨b, hb⟩, hlen⟩
      exact hcomputes.unique hb (hfirst.trans hlen.symm)

/-- **A query that resolves** does so once, with what the engine computed for the first command of
its kind whose answer the client had not heard when the query was made.

**Proof sketch.** An exchange is consistent at its start and along the happenings before the query,
which nobody has made until then. From there on the query is pursued, by `Consistent.resolves`. -/
theorem resolves_run_start (timeout : Option Number) (machine : Machine)
    (logCommands endsOutput : Bool) (before after : List Happening) {id : ℕ} {request : Request}
    {own : Command} {q : Query} (hid : ∀ request', .called id request' ∉ before ++ after)
    (hown : request.command? = some own) (hq : own.query? = some q) {a : Answer}
    (ha : .settled id (.ok a) ∈ ((start timeout (.start machine logCommands) endsOutput).run
      (before ++ .called id request :: after)).2.client) :
    ∃ i, Resolves (.start machine logCommands)
      ((start timeout (.start machine logCommands) endsOutput).run before).2.client
      ((start timeout (.start machine logCommands) endsOutput).run
        (before ++ .called id request :: after)).2 id own q a i := by
  have hstart := consistent_start timeout (.start machine logCommands) endsOutput rfl
  have hnew := hstart.tally_run rfl
    (fun request' hm => hid request' (List.mem_append_left after hm)) rfl
  rw [run_append] at ha ⊢
  exact (hstart.run before).1.resolves hnew hown hq
    (fun request' hm => hid request' (List.mem_append_right before hm)) ha

/-- A read behind a write resolves, with the byte that was written and the one behind it. -/
theorem resolves_run_start_of_read :
    ∃ i, Resolves (.start (.initial [] 16 {}) false)
      ((start none (.start (.initial [] 16 {}) false) true).run
        [.called 0 (.send (.setMemory 0 [7]))]).2.client
      ((start none (.start (.initial [] 16 {}) false) true).run
        ([.called 0 (.send (.setMemory 0 [7]))] ++
          .called 1 (.readMemory 0 2 none) :: [.sessionReads 2, .clientReads 1])).2
      1 (.requestMemory 0 2) .memory (.bytes [7, 0]) i :=
  resolves_run_start none (.initial [] 16 {}) false true [.called 0 (.send (.setMemory 0 [7]))]
    [.sessionReads 2, .clientReads 1] (by simp) rfl rfl (by decide +kernel)

/-- A read that the session has refused takes the answer to a later one.

**Proof sketch.** Both sides are closed terms. The engine has no answer to the first read, so it
computes none for it. -/
theorem not_computes_of_refused_read :
    .settled 0 (.ok (.bytes [0])) ∈
      ((start none (.start (.initial [] 16 {}) false) true).run
        ([] ++ .called 0 (.readMemory 0 32 none) :: [.sessionReads 1, .clientReads 1,
          .called 1 (.readMemory 0 1 none), .sessionReads 1, .clientReads 1])).2.client ∧
    ¬ (Engine.start (.initial [] 16 {}) false).Computes
      (commands ((start none (.start (.initial [] 16 {}) false) true).run
        ([] ++ .called 0 (.readMemory 0 32 none) :: [.sessionReads 1, .clientReads 1,
          .called 1 (.readMemory 0 1 none), .sessionReads 1, .clientReads 1])).2.session)
      (asked ((start none (.start (.initial [] 16 {}) false) true).run []).2.client).length
      .memory (.bytes [0]) := by
  refine ⟨by decide +kernel, ?_⟩
  rintro ⟨m, ev, hm, -, hev, -⟩
  have hcs : commands ((start none (.start (.initial [] 16 {}) false) true).run
      ([] ++ .called 0 (.readMemory 0 32 none) :: [.sessionReads 1, .clientReads 1,
        .called 1 (.readMemory 0 1 none),
        .sessionReads 1, .clientReads 1])).2.session =
          [.requestMemory 0 32, .requestMemory 0 1] := by
    decide +kernel
  have hnone : (Engine.start (.initial [] 16 {}) false).answer? (.requestMemory 0 32) = none := by
    decide +kernel
  rw [hcs] at hm
  obtain rfl := Option.some.inj hm
  rw [hnone] at hev
  cases hev

end Exchange

end DebugWire
