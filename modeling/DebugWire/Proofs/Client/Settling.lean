import DebugWire.Proofs.Client.Hearing
import DebugWire.Proofs.Client.Listeners

set_option relaxedAutoImplicit false
set_option autoImplicit false

/-!
# Waits that settle once

A call that waits for an event is settled at most once, by the first signal that ends its wait: an
event of the kind that it waits for has come in, the link is gone, or the clock has come to the end
of its time. Until then it waits, and afterwards nothing of it is left. On a client of which the
link is gone it fails at once.

## Main definitions

* `DebugWire.ClientTrace.results` — what a call was settled with.
* `DebugWire.Wait.Lasts` — how long a timer lasts that is set to a time.
* `DebugWire.Hooks.ofCall` — the listeners and timers of a call.
* `DebugWire.Client.goneAfter` — whether the link is gone, as far as the client has told.
* `DebugWire.Client.AwaitsEvent` — what ends a wait for an event, and with which result.
* `DebugWire.Client.SettlesOnce` — a call that waits, as far as some signals have gone.

## Main results

* `DebugWire.Wait.exists_lasts_delay` — how long the timer of a wait lasts.
* `DebugWire.Signal.results_run` — what signals make of one wait.
* `DebugWire.Client.isClosed_run`, `DebugWire.Client.now_run` — whether the link is gone, and the
  time.
* `DebugWire.Client.wait_settles_once` — what becomes of a call that is made at any time.
-/

namespace DebugWire

/-! ## One call -/

namespace ClientTrace

/-- What a call was settled with. -/
def result? (id : ℕ) : ClientTrace → Option (Except Fault Answer)
  | settled call result => if call = id then some result else none
  | sent _ | ended | event _ | malformed _ | closed => none

/-- All that a call was settled with, in order. -/
def results (id : ℕ) (trace : List ClientTrace) : List (Except Fault Answer) :=
  trace.filterMap (result? id)

/-- What a call was settled with in traces one behind the other. -/
lemma results_append (id : ℕ) (t t' : List ClientTrace) :
    results id (t ++ t') = results id t ++ results id t' :=
  List.filterMap_append

/-- Nothing but settled calls matters for the results of a call. -/
lemma results_filter_isSettled (id : ℕ) (trace : List ClientTrace) :
    results id (trace.filter isSettled) = results id trace := by
  rw [results, List.filterMap_filter]
  refine List.filterMap_congr fun t _ => ?_
  cases t <;> rfl

end ClientTrace

/-! ## Timers -/

namespace Wait

/-- How many milliseconds a timer *lasts* that is set to a time. -/
structure Lasts (span : Number) (n : ℕ) : Prop where
  /-- A time from one millisecond up to the longest of a timer lasts as many as it has whole ones.
  -/
  whole : Number.le 1 span = true → span.le longest = true →
    Number.le n span = true ∧ span.lt ((n + 1 : ℕ) : Number) = true
  /-- Any other time, and what is no number, lasts one. -/
  otherwise : ¬ (Number.le 1 span = true ∧ span.le longest = true) → n = 1

/-- The whole milliseconds of a time that has at least one are what it is cut to.

**Proof sketch.** A fraction is cut towards zero, which is downwards because it is positive; the two
bounds are those of the integer quotient. -/
lemma exists_truncate {span : Number} (h : Number.le 1 span = true) (hl : span.le longest = true) :
    ∃ n : ℕ, span.truncate = some (n : ℤ) ∧ Number.le n span = true ∧
      span.lt ((n + 1 : ℕ) : Number) = true := by
  cases span with
  | whole n =>
    have hn : 1 ≤ n := by simpa [OfNat.ofNat] using h
    obtain ⟨k, rfl⟩ := Int.eq_ofNat_of_zero_le (show 0 ≤ n by omega)
    refine ⟨k, rfl, ?_, ?_⟩
    · rw [Number.le_whole]
      exact decide_eq_true le_rfl
    · rw [Number.lt_whole]
      exact decide_eq_true (by omega)
  | fraction m k odd =>
    have hpos : (0 : ℤ) < Number.twoPow (k + 1) := Int.natCast_pos.2 (Nat.two_pow_pos (k + 1))
    have hm : 0 ≤ m := by
      have hle : ((1 : ℕ) : ℤ) * Number.twoPow (k + 1) ≤ m * Number.twoPow 0 := of_decide_eq_true h
      rw [Number.twoPow_zero] at hle
      omega
    obtain ⟨n, hn⟩ := Int.eq_ofNat_of_zero_le (Int.ediv_nonneg hm hpos.le)
    refine ⟨n, ?_, ?_, ?_⟩
    · rw [Number.truncate, Int.tdiv_eq_ediv_of_nonneg hm, hn]
    · refine decide_eq_true ?_
      show (n : ℤ) * Number.twoPow (k + 1) ≤ m * Number.twoPow 0
      rw [Number.twoPow_zero, Nat.cast_one, mul_one, ← hn]
      exact Int.ediv_mul_le m hpos.ne'
    · refine decide_eq_true ?_
      show m * Number.twoPow 0 < ((n + 1 : ℕ) : ℤ) * Number.twoPow (k + 1)
      rw [Number.twoPow_zero, Nat.cast_one, mul_one, Nat.cast_succ, ← hn]
      exact Int.lt_ediv_add_one_mul_self m hpos
  | infinite negative => cases negative <;> [cases hl; cases h]
  | nan => cases h

/-- **The timer of a wait** lasts as long as the wait is to take, as far as a timer can.

**Proof sketch.** A span from 1 up to the longest that there is is cut to whole milliseconds. For
every other one the timer lasts 1 ms, infinity and what is no number among them. -/
theorem exists_lasts_delay (span : Number) : ∃ n : ℕ, Lasts span n ∧ delay span = n := by
  by_cases h : Number.le 1 span = true ∧ span.le longest = true
  · obtain ⟨n, hn, hwhole⟩ := exists_truncate h.1 h.2
    refine ⟨n, ⟨fun _ _ => hwhole, fun hnot => absurd h hnot⟩, ?_⟩
    rw [delay, hn, h.1, h.2]
    rfl
  · refine ⟨1, ⟨fun h₁ h₂ => absurd ⟨h₁, h₂⟩ h, fun _ => rfl⟩, ?_⟩
    have hnot : (Number.le 1 span && span.le longest) = false := by simpa using h
    rw [delay, hnot]
    cases span.truncate <;> rfl
end Wait

/-! ## The hooks of a call -/

/-- Whether a wait is one of a call. -/
def Wait.isOf (id : ℕ) (w : Wait) : Bool := w.call = some id

/-- The listeners for events, those for the end of the link, and the timers of a call, by their
waits. -/
def Hooks.ofCall (id : ℕ) (h : Hooks) : List (List Wait) :=
  [h.events, h.closes, h.timers].map fun ps => (ps.map Prod.snd).filter (Wait.isOf id)

/-- Listeners and timers that hold waits have, for a call, those that are its own. -/
lemma Hooks.Holds.ofCall_eq {h : Hooks} {waits : List Wait} (hw : h.Holds waits) (id : ℕ) :
    h.ofCall id = List.replicate 3 (waits.filter (Wait.isOf id)) := by
  rw [Hooks.ofCall, hw.closes, hw.timers, ← hw.events]
  rfl

namespace Signal

open ClientTrace (results)

variable {id : ℕ} {s : Signal} {ss : List Signal} {waits : List Wait} {own : Option Wait}

/-- The call that a signal is about, if it is about one. -/
def call? : Signal → Option ℕ
  | made w => w.call
  | refused call _ => some call
  | heard _ | gone | reached _ => none

/-- Signals with which the clock does not go on leave the time. -/
lemma foldl_clock (h : ∀ s ∈ ss, ∀ now, s.clock now = now) (now : Number) :
    ss.foldl clock now = now := by
  induction ss with
  | nil => rfl
  | cons s ss ih =>
    obtain ⟨hs, hrest⟩ := List.forall_mem_cons.1 h
    rw [List.foldl_cons, hs, ih hrest]

/-- What a call is settled with when a signal comes to waits.

**Proof sketch.** Induction on the waits. A wait that the signal ends settles its own call with its
outcome, which counts if that is the call `id`. -/
lemma results_ending (id : ℕ) (s : Signal) (waits : List Wait) :
    results id (waits.flatMap (Wait.ending s)) =
      (waits.filter (Wait.isOf id)).filterMap (Wait.outcome · s) := by
  induction waits with
  | nil => rfl
  | cons w waits ih =>
    rw [List.flatMap_cons, ClientTrace.results_append, ih, List.filter_cons, Wait.ending, Wait.isOf]
    cases hcall : w.call with
    | none => cases w.outcome s <;> simp [results, ClientTrace.ofWait, hcall]
    | some call =>
      by_cases h : call = id
      · cases hs : w.outcome s <;>
          simp [results, ClientTrace.ofWait, ClientTrace.result?, hcall, hs, h]
      · cases w.outcome s <;> simp [results, ClientTrace.ofWait, ClientTrace.result?, hcall, h]

/-- The wait of a call is come to exactly if the signal would end it, in whatever order the waits
are.

**Proof sketch.** Only the clock puts the waits in another order and leaves out those that are not
due. As the call has one wait at most, what is left of its waits is the same list. -/
lemma filterMap_order (hw : waits.filter (Wait.isOf id) = own.toList) (s : Signal) :
    ((s.order waits).filter (Wait.isOf id)).filterMap (Wait.outcome · s) =
      (own.bind (Wait.outcome · s)).toList := by
  have hall : (waits.filter (Wait.isOf id)).filterMap (Wait.outcome · s) =
      (own.bind (Wait.outcome · s)).toList := by
    rw [hw]
    cases own with
    | none => rfl
    | some w => cases h : w.outcome s <;> simp [h]
  cases s with
  | made _ | refused _ _ | heard _ | gone => exact hall
  | reached now =>
    -- There is one wait at most, so that the order does not matter.
    have hperm : ((Wait.due now waits).filter (Wait.isOf id)).Perm
        ((waits.filter (Wait.isOf id)).filter (Wait.isDue now)) := by
      rw [List.filter_comm]
      exact (List.mergeSort_perm _ _).filter _
    rw [hw] at hperm
    cases own with
    | none => rw [order, List.perm_nil.1 hperm]; rfl
    | some w =>
      cases hdue : w.isDue now with
      | true =>
        rw [show (some w).toList.filter (Wait.isDue now) =
          [w] from List.filter_cons_of_pos hdue] at hperm
        rw [order, List.perm_singleton.1 hperm]
        simp [Wait.outcome, hdue]
      | false =>
        rw [show (some w).toList.filter (Wait.isDue now) = [] by simp [hdue]] at hperm
        rw [order, List.perm_nil.1 hperm]
        simp [Wait.outcome, hdue]

/-- **What a signal makes of the wait of a call**, if it is not about the call itself.

**Proof sketch.** The wait of the call is taken away if the signal ends it, and with the result that
the call is settled with. Signals that begin a wait or refuse one are about another call. -/
lemma results_act (hs : s.call? ≠ some id) (hw : waits.filter (Wait.isOf id) = own.toList) :
    (act waits s).1.filter (Wait.isOf id) = (own.filter fun w => (w.outcome s).isNone).toList ∧
      results id (act waits s).2 = (own.bind (Wait.outcome · s)).toList := by
  have hrest : (waits.filter fun w => (w.outcome s).isNone).filter (Wait.isOf id) =
      (own.filter fun w => (w.outcome s).isNone).toList := by
    rw [List.filter_comm, hw]
    cases own with
    | none => rfl
    | some w => cases h : w.outcome s <;> simp [Option.filter, h]
  have hresults := (results_ending id s (s.order waits)).trans (filterMap_order hw s)
  cases s with
  | made w =>
    have hnot : ¬ Wait.isOf id w = true := fun h => hs (of_decide_eq_true h)
    rw [act, List.filter_append, hw, List.filter_cons_of_neg hnot]
    cases own <;> exact ⟨rfl, rfl⟩
  | refused call f =>
    have hnone : results id [.settled call (.error f)] = [] :=
      List.filterMap_cons_none (if_neg fun h => hs (congrArg some h))
    dsimp only [act]
    rw [hw, hnone]
    cases own <;> exact ⟨rfl, rfl⟩
  | heard e | gone | reached now => exact ⟨hrest, hresults⟩

/-- **What signals make of the wait of a call**, if none is about the call itself: the first of them
that ends the wait settles the call, and then the wait is gone.

**Proof sketch.** By induction on the signals. As long as none ends the wait, it is the one wait of
the call. Afterwards the call has none, and nothing can settle it any more. -/
theorem results_run (hss : ∀ s ∈ ss, s.call? ≠ some id)
    (hw : waits.filter (Wait.isOf id) = own.toList) :
    (run waits ss).1.filter (Wait.isOf id) =
      (own.filter fun w => (ss.findSome? w.outcome).isNone).toList ∧
      results id (run waits ss).2 = (own.bind fun w => ss.findSome? w.outcome).toList := by
  induction ss generalizing waits own with
  | nil => cases own <;> exact ⟨hw, rfl⟩
  | cons s ss ih =>
    obtain ⟨hs, hrest⟩ := List.forall_mem_cons.1 hss
    obtain ⟨hact, hresults⟩ := results_act hs hw
    obtain ⟨hrun, hlater⟩ := ih hrest hact
    rw [run, ClientTrace.results_append, hresults, hlater]
    refine ⟨hrun.trans ?_, ?_⟩
    all_goals
      cases own with
      | none => rfl
      | some w => cases h : w.outcome s <;> simp [Option.filter, List.findSome?_cons, h]

end Signal

namespace Client

open ClientTrace (results isClosing)

variable {c : Client} {x : Happening} {xs ys : List Happening} {id : ℕ}

/-! ## The clock and the link -/

namespace Happening

/-- The call that a happening is about, if it is about one. -/
def call? : Happening → Option ℕ
  | called call _ => some call
  | bound _ | rebound | received _ | sourceEnded | sinkFailed | formerly .. | elapsed _ => none

/-- The time after a happening. -/
def clock (now : Number) : Happening → Number
  | elapsed time => now + time
  | bound _ | rebound | received _ | sourceEnded | sinkFailed | formerly .. | called .. => now

end Happening

/-- The signals of a query are about this call or about none, and none is that the clock goes on.

**Proof sketch.** By the parts of a query: the wait that is taken up and the fault that settles it
are about the call, and that the link closes is about none. -/
lemma of_mem_asking {command : Command} {tag : EventTag} {wanted : Wanted} {limit : Option Number}
    {s : Signal} (h : s ∈ c.asking id command tag wanted limit) :
    (s.call? = some id ∨ s.call? = none) ∧ ∀ now, s.clock now = now := by
  unfold asking at h
  split at h
  · rw [List.mem_singleton.1 h]
    exact ⟨.inl rfl, fun _ => rfl⟩
  · rcases List.mem_append.1 h with h | h
    · split_ifs at h
      · cases h
      · rw [List.mem_singleton.1 h]
        exact ⟨.inr rfl, fun _ => rfl⟩
    · rw [List.mem_singleton.1 h]
      exact ⟨.inl rfl, fun _ => rfl⟩

/-- The signals of a call are about this call or about none, and none is that the clock goes on.

**Proof sketch.** One case for each request: a query or a wait gives one signal for its own call,
and the others give none. -/
lemma of_mem_calling {request : Request} {s : Signal} (h : s ∈ c.calling id request) :
    (s.call? = some id ∨ s.call? = none) ∧ ∀ now, s.clock now = now := by
  cases request with
  | await tag limit =>
    rw [calling] at h
    split_ifs at h <;>
    · rw [List.mem_singleton.1 h]
      exact ⟨.inl rfl, fun _ => rfl⟩
  | dump limit | readStack limit => exact of_mem_asking h
  | readMemory first last limit =>
    rw [calling] at h
    split_ifs at h
    · rw [List.mem_singleton.1 h]
      exact ⟨.inl rfl, fun _ => rfl⟩
    · exact of_mem_asking h
  | send _ | sendKey _ | writeMemory _ _ | close => cases h

/-- The signals that a client gives are about no call. -/
lemma call?_of_mem_given {trace : List ClientTrace} {s : Signal}
    (h : s ∈ trace.filterMap ClientTrace.signal?) :
    s.call? ≠ some id := by
  obtain ⟨t, -, ht⟩ := List.mem_filterMap.1 h
  cases t with
  | event e | closed =>
    obtain rfl := Option.some.inj ht
    exact nofun
  | sent _ | ended | malformed _ | settled _ _ => cases ht

/-- The signals of a happening that is not about a call are not about it either.

**Proof sketch.** The signals of a happening are those of what it does at once and those that are
given behind it. The latter are never about a call, and of the former only those of a call are. -/
lemma call?_of_mem_signals (hx : x.call? ≠ some id) {s : Signal} (h : s ∈ c.signals x) :
    s.call? ≠ some id := by
  rcases List.mem_append.1 h with h | h
  · cases x with
    | bound _ | rebound | received _ | sourceEnded | sinkFailed | formerly _ _ => cases h
    | elapsed time =>
      rw [List.mem_singleton.1 h]
      exact nofun
    | called call request =>
      rcases (of_mem_calling h).1 with hs | hs <;> rw [hs]
      · exact hx
      · exact nofun
  · exact call?_of_mem_given h

/-- If no happening is about a call, then no signal of the run is about it. -/
lemma call?_of_mem_signalsIn (hxs : ∀ x ∈ xs, x.call? ≠ some id) :
    ∀ s ∈ c.signalsIn xs, s.call? ≠ some id := by
  induction xs generalizing c with
  | nil => exact fun _ hs => absurd hs List.not_mem_nil
  | cons x xs ih =>
    obtain ⟨hx, hrest⟩ := List.forall_mem_cons.1 hxs
    intro s hs
    rcases List.mem_append.1 hs with hs | hs
    · exact call?_of_mem_signals hx hs
    · exact ih hrest s hs

/-- The clock goes on with the time that goes by, and with nothing else. -/
lemma now_happen (c : Client) (x : Happening) : (c.happen x).client.now = x.clock c.now := by
  refine (heeds_happen c x).now.trans ?_
  cases x with
  | bound _ | rebound | received _ | sourceEnded | sinkFailed | formerly _ _ | elapsed _ => rfl
  | called call request => exact Signal.foldl_clock (fun s hs => (of_mem_calling hs).2) c.now

/-- **The time** after happenings, and the time that a wait may take. -/
theorem now_run (c : Client) (xs : List Happening) :
    (c.run xs).1.now = xs.foldl Happening.clock c.now ∧ (c.run xs).1.timeout = c.timeout := by
  induction xs generalizing c with
  | nil => exact ⟨rfl, rfl⟩
  | cons x xs ih =>
    obtain ⟨hnow, htimeout⟩ := ih (c.happen x).client
    rw [List.foldl_cons, ← now_happen]
    exact ⟨hnow, htimeout.trans (heeds_happen c x).timeout⟩

/-- Whether the link is gone after happenings: the client has told so since it was bound last. It
begins as it is. -/
def goneAfter (c : Client) (gone : Bool) : List Happening → Bool
  | [] => gone
  | x :: xs =>
    (c.happen x).client.goneAfter (gone && !x.binds || (c.happen x).trace.any isClosing) xs

/-- A client is closed after a happening if it tells so, or if it was before and has not been bound.

**Proof sketch.** A happening that does not bind is work, of which this is a part. Binding opens the
client, and the failed writes that are taken up behind it may close it again. -/
lemma isClosed_happen (c : Client) (x : Happening) :
    (c.happen x).client.isClosed =
      (c.isClosed && !x.binds || (c.happen x).trace.any isClosing) := by
  cases hx : x.binds with
  | false =>
    rw [Bool.not_false, Bool.and_true]
    exact (works_happen c hx).isClosed
  | true =>
    rw [Bool.not_true, Bool.and_false, Bool.false_or]
    cases x with
    | bound failure => exact (works_settle (c.bind (.fresh failure))).isClosed
    | rebound => exact (works_settle c.rebind).isClosed
    | _ => cases hx

/-- **Whether a client is closed** after happenings is told from what it has let out. -/
theorem isClosed_run (c : Client) (xs : List Happening) :
    (c.run xs).1.isClosed = c.goneAfter c.isClosed xs := by
  induction xs generalizing c with
  | nil => rfl
  | cons x xs ih =>
    rw [goneAfter, ← isClosed_happen]
    exact ih (c.happen x).client

/-! ## Waits -/

/-- A wait for an event of a kind, the time of which is over at some time. -/
structure AwaitsEvent (w : Wait) (tag : EventTag) (limit deadline : Number) : Prop where
  /-- An event ends it exactly if it is of the kind, and it is that event that the call gets. -/
  heard : ∀ e, w.outcome (.heard e) = if e.tag = tag then some (.ok (.event e)) else none
  /-- The end of the link ends it. -/
  gone : w.outcome .gone = some (.error (.closedWhileWaiting tag))
  /-- The clock ends it exactly if it has come to the time. -/
  reached : ∀ now, w.outcome (.reached now) =
    if deadline.le now then some (.error (.timedOut limit tag)) else none
  /-- Nothing that another call does ends it. -/
  other : (∀ v, w.outcome (.made v) = none) ∧ ∀ call f, w.outcome (.refused call f) = none

/-- A call that waits *settles once*, as far as signals have gone. -/
structure SettlesOnce (hooks : Hooks) (trace : List ClientTrace) (id : ℕ) (w : Wait)
    (ss : List Signal) : Prop where
  /-- As long as none of the signals ends the wait, the call waits: it was not settled, and it has
  its listeners and its timer. -/
  waits : ss.findSome? w.outcome = none → results id trace = [] ∧ hooks.ofCall id = [[w], [w], [w]]
  /-- The first one that ends it settles the call once. Then there are neither listeners nor a
  timer. -/
  settled : ∀ result, ss.findSome? w.outcome = some result →
    results id trace = [result] ∧ hooks.ofCall id = [[], [], []]

/-- The wait that a call for an event would make.

**Proof sketch.** The wait takes an event if its tag is the one that is asked for, and ends with a
fault when the link is gone or its time has come. By definition it looks at nothing else. -/
lemma awaitsEvent_newWait (c : Client) (id : ℕ) (tag : EventTag) (limit : Option Number) :
    AwaitsEvent (c.newWait (some id) tag .event limit) tag (limit.getD c.timeout)
      (c.now + Wait.delay (limit.getD c.timeout)) where
  heard e := by
    have hiff : (c.newWait (some id) tag .event limit).awaits e = decide (e.tag = tag) :=
      decide_eq_decide.2 eq_comm
    rw [Wait.outcome, hiff]
    by_cases h : e.tag = tag
    · rw [if_pos h, if_pos (decide_eq_true h)]
      cases e <;> rfl
    · rw [if_neg h, if_neg (decide_eq_false h ▸ Bool.false_ne_true)]
  gone := rfl
  reached _ := rfl
  other := ⟨fun _ => rfl, fun _ _ => rfl⟩

/-- A call that has not been made has no wait and was not settled. -/
lemma fresh_run (hw : c.waits.filter (Wait.isOf id) = []) (hxs : ∀ x ∈ xs, x.call? ≠ some id) :
    (c.run xs).1.waits.filter (Wait.isOf id) = [] ∧ results id (c.run xs).2 = [] := by
  have hnone : c.waits.filter (Wait.isOf id) = (none : Option Wait).toList := hw
  have hrun := Signal.results_run (call?_of_mem_signalsIn (c := c) hxs) hnone
  rw [run_signalsIn, ClientTrace.results_filter_isSettled] at hrun
  exact hrun

/-- A call that waits on an open client settles once, if it is the first of its number and the only
one.

**Proof sketch.** The call begins with the signal that its wait is made, and no later signal is
about it. So by `results_run` it is settled with the outcome of the first signal that ends the wait,
once, and afterwards no listener and no timer of it is left; until then it has all of them. -/
lemma settlesOnce_of_isOpen (hc : c.isClosed = false) (hown : c.waits.filter (Wait.isOf id) = [])
    {tag : EventTag} {limit : Option Number} {w : Wait}
    (hw : c.newWait (some id) tag .event limit = w) (hys : ∀ y ∈ ys, y.call? ≠ some id)
    {hooks : Hooks} (hh : hooks.Holds (c.run (.called id (.await tag limit) :: ys)).1.waits) :
    SettlesOnce hooks (c.run (.called id (.await tag limit) :: ys)).2 id w
      (c.signalsIn (.called id (.await tag limit) :: ys)) := by
  -- The call begins to wait, and no later signal is about it.
  obtain ⟨later, hlater, hnone⟩ :
      ∃ later, c.signalsIn (.called id (.await tag limit) :: ys) = .made w :: later ∧
      ∀ s ∈ later, s.call? ≠ some id := by
    refine ⟨(c.happen (.called id (.await tag limit))).trace.filterMap ClientTrace.signal? ++
      (c.happen (.called id (.await tag limit))).client.signalsIn ys, ?_, fun s hs => ?_⟩
    · have hcalling : c.calling id (.await tag limit) = [.made w] := by
        rw [calling, hc, if_neg Bool.false_ne_true, hw]
      rw [signalsIn, signals, opening, hcalling]
      rfl
    · rcases List.mem_append.1 hs with hs | hs
      · exact call?_of_mem_given hs
      · exact call?_of_mem_signalsIn hys s hs
  have hadded : (c.waits ++ [w]).filter (Wait.isOf id) = (some w).toList := by
    have hself : Wait.isOf id w = true := hw ▸ decide_eq_true rfl
    rw [List.filter_append, hown, List.nil_append, List.filter_cons_of_pos hself]
    rfl
  have hrun := run_signalsIn c (.called id (.await tag limit) :: ys)
  rw [hlater] at hrun
  obtain ⟨hwaits, hresults⟩ := Signal.results_run hnone hadded
  rw [show Signal.run (c.waits ++ [w]) later = _ from hrun] at hwaits hresults
  rw [ClientTrace.results_filter_isSettled] at hresults
  rw [hlater]
  have hfirst : (.made w :: later : List Signal).findSome? w.outcome = later.findSome? w.outcome :=
    rfl
  refine ⟨fun hpending => ?_, fun result hsettled => ?_⟩
  · rw [hfirst] at hpending
    rw [hh.ofCall_eq, hwaits, hresults]
    simp [Option.filter, hpending]
  · rw [hfirst] at hsettled
    rw [hh.ofCall_eq, hwaits, hresults]
    simp [Option.filter, hsettled]

/-- A failed write that a closed client takes up has no effect that is seen. -/
lemma settle_of_isClosed (hc : c.isClosed = true) : c.settle.2 = [] := by
  unfold settle
  cases c.link with
  | none => rfl
  | some link =>
    dsimp only
    split
    · rw [lose_of_isClosed (c := { c with link := some { link with sink := _ } }) hc]
    · rfl

/-- A call that would wait on a closed client fails at once, and that is all that it is ever settled
with.

**Proof sketch.** The only signal is the refusal, which leaves the waits, so by `fresh_run` the call
never has one and is not settled again. -/
lemma refused_of_isClosed (hc : c.isClosed = true) (hown : c.waits.filter (Wait.isOf id) = [])
    {tag : EventTag} {limit : Option Number} (hys : ∀ y ∈ ys, y.call? ≠ some id) {hooks : Hooks}
    (hh : hooks.Holds (c.run (.called id (.await tag limit) :: ys)).1.waits) :
    (c.happen (.called id (.await tag limit))).trace =
      [.settled id (.error (.closedWhileWaiting tag))] ∧
      results id (c.run (.called id (.await tag limit) :: ys)).2 =
        [.error (.closedWhileWaiting tag)] ∧
      hooks.ofCall id = [[], [], []] := by
  have htrace : (c.happen (.called id (.await tag limit))).trace =
      [.settled id (.error (.closedWhileWaiting tag))] := by
    have hawait : c.await id tag limit = (c, [.settled id (.error (.closedWhileWaiting tag))]) :=
      if_pos hc
    rw [happen, respond, call, hawait]
    dsimp only
    rw [settle_of_isClosed hc]
    rfl
  have hsignals :
      c.signals (.called id (.await tag limit)) = [.refused id (.closedWhileWaiting tag)] := by
    rw [signals, opening, calling, if_pos hc, htrace]
    rfl
  have hkept : (c.happen (.called id (.await tag limit))).client.waits = c.waits := by
    have hwaits : Signal.run c.waits (c.signals (.called id (.await tag limit))) = _ :=
      (heeds_happen c _).waits
    rw [hsignals] at hwaits
    exact (congrArg Prod.fst hwaits).symm
  obtain ⟨hwaits, hresults⟩ := fresh_run (hkept.symm ▸ hown) hys
  refine ⟨htrace, ?_, ?_⟩
  · rw [run]
    dsimp only
    rw [htrace, ClientTrace.results_append, hresults, List.append_nil]
    simp only [results, List.filterMap_cons, ClientTrace.result?, if_pos, List.filterMap_nil]
  · rw [hh.ofCall_eq]
    exact congrArg (List.replicate 3) hwaits

/-- **A call that waits settles once**, at any time and whatever happens before and afterwards. The
listeners and timers that the signals of the whole run leave are those of the waits that go on, and
each call is settled when they say so.

* On a client that is not closed the call waits until an event of the kind comes in, the link is
  gone, or the time is over. The first of these settles it: with that event, with a fault of the
  connection, or with one of the time.
* Its time is over when its timer goes off. That is after its whole milliseconds, if it has one at
  least and not more than a timer can take, and otherwise after one millisecond.
* On a closed client it fails at once, with a fault of the connection.

The call of that number is the only one. Whether the client is closed, and how late it is, is told
from what has happened.

**Proof sketch.** The waits and the settled calls of the whole run are what its signals make of no
waits, and listeners and timers follow the signals as well. Before the call is made nothing is about
it. Then it has its wait, which is followed through the rest of the signals. -/
theorem wait_settles_once (timeout : Option Number) (xs : List Happening) (id : ℕ) (tag : EventTag)
    (limit : Option Number) (ys : List Happening) (hid : ∀ x ∈ xs ++ ys, x.call? ≠ some id)
    (hc : ((unbound timeout).run xs).1 = c) {r : Client × List ClientTrace}
    (hr : (unbound timeout).run (xs ++ .called id (.await tag limit) :: ys) = r)
    {h : Hooks × List ClientTrace}
    (hh : Hooks.empty.run
      ((unbound timeout).signalsIn (xs ++ .called id (.await tag limit) :: ys)) = h)
    {span : Number} (hspan : limit.getD (timeout.getD defaultTimeout) = span) {w : Wait}
    (hw : c.newWait (some id) tag .event limit = w) :
    (h.1.Holds r.1.waits ∧ h.2 = r.2.filter ClientTrace.isSettled) ∧
      c.isClosed = (unbound timeout).goneAfter false xs ∧
      (∃ n : ℕ, Wait.Lasts span n ∧
        AwaitsEvent w tag span (xs.foldl Happening.clock 0 + (n : Number))) ∧
      (Fault.closedWhileWaiting tag).kind = .connection ∧
      (Fault.timedOut span tag).kind = .timeout ∧
      (c.isClosed = false →
        SettlesOnce h.1 r.2 id w (c.signalsIn (.called id (.await tag limit) :: ys))) ∧
      (c.isClosed = true →
        (c.happen (.called id (.await tag limit))).trace =
          [.settled id (.error (.closedWhileWaiting tag))] ∧
          results id r.2 = [.error (.closedWhileWaiting tag)] ∧ h.1.ofCall id = [[], [], []]) := by
  obtain ⟨hxs, hys⟩ := List.forall_mem_append.1 hid
  obtain ⟨hnow, htimeout⟩ := now_run (unbound timeout) xs
  obtain ⟨hown, hbefore⟩ := fresh_run (c := unbound timeout) rfl hxs
  have hholds := Hooks.holds_run Hooks.holds_empty
    ((unbound timeout).signalsIn (xs ++ .called id (.await tag limit) :: ys))
  rw [hh, show Signal.run [] _ = _ from run_signalsIn (unbound timeout) _, hr] at hholds
  rw [hc] at hnow htimeout hown
  have hsplit : r = ((c.run (.called id (.await tag limit) :: ys)).1,
      ((unbound timeout).run xs).2 ++ (c.run (.called id (.await tag limit) :: ys)).2) := by
    rw [← hr, run_append, hc]
  have hresults : results id r.2 = results id (c.run (.called id (.await tag limit) :: ys)).2 := by
    rw [hsplit, ClientTrace.results_append, hbefore, List.nil_append]
  have hlater : h.1.Holds (c.run (.called id (.await tag limit) :: ys)).1.waits := by
    have hwaits : r.1 = (c.run (.called id (.await tag limit) :: ys)).1 := by rw [hsplit]
    exact hwaits ▸ hholds.1
  refine ⟨hholds, hc ▸ isClosed_run (unbound timeout) xs, ?_, rfl, rfl, fun hopen => ?_,
    fun hclosed => ?_⟩
  · have hawaits := awaitsEvent_newWait c id tag limit
    obtain ⟨n, hlasts, hdelay⟩ := Wait.exists_lasts_delay span
    rw [hw, hnow, htimeout, show limit.getD (unbound timeout).timeout = span from hspan,
      hdelay] at hawaits
    exact ⟨n, hlasts, hawaits⟩
  · have honce := settlesOnce_of_isOpen hopen hown hw hys hlater
    exact ⟨fun hpending => hresults ▸ honce.waits hpending,
      fun result hsettled => hresults ▸ honce.settled result hsettled⟩
  · rw [hresults]
    exact refused_of_isClosed hclosed hown hys hlater

/-- A call waits 100 ms for the request for a key. After 60 ms it waits still. Then the request
comes in and settles it. Neither the end of its time nor that of the link is of any effect, for it
has neither a timer nor listeners any more. -/
theorem wait_settles_once_of_key :
    (∀ x ∈ [Happening.bound none, .elapsed 60, .received [0x6b], .elapsed 40, .sourceEnded],
      x.call? ≠ some 0) ∧
      results 0 ((unbound none).run [.bound none, .called 0 (.await .keyRequested (some 100)),
        .elapsed 60]).2 = [] ∧
      results 0 ((unbound none).run [.bound none, .called 0 (.await .keyRequested (some 100)),
        .elapsed 60,
        .received [0x6b], .elapsed 40, .sourceEnded]).2 = [.ok (.event .keyRequested)] ∧
      (Hooks.empty.run ((unbound none).signalsIn [.bound none,
        .called 0 (.await .keyRequested (some 100)), .elapsed 60,
        .received [0x6b], .elapsed 40, .sourceEnded])).1.ofCall 0 = [[], [], []] := by
  have hid : ∀ x ∈ [Happening.bound none, .elapsed 60, .received [0x6b], .elapsed 40, .sourceEnded],
      x.call? ≠ some 0 := by
    simp [Happening.call?]
  obtain ⟨-, -, -, -, -, hwaits, -⟩ :=
    wait_settles_once none [.bound none] 0 .keyRequested (some 100)
    [.elapsed 60] (by simp [Happening.call?]) rfl rfl rfl rfl rfl
  obtain ⟨-, -, -, -, -, hsettles, -⟩ :=
    wait_settles_once none [.bound none] 0 .keyRequested (some 100)
    [.elapsed 60, .received [0x6b], .elapsed 40, .sourceEnded] hid rfl rfl rfl rfl rfl
  refine ⟨hid, ((hwaits rfl).waits ?_).1, (hsettles rfl).settled _ ?_⟩
  · decide +kernel
  · decide +kernel

end Client

end DebugWire
