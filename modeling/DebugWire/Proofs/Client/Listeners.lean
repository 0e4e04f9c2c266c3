import DebugWire.Proofs.Client.Signals

set_option relaxedAutoImplicit false
set_option autoImplicit false

/-!
# Listeners and timers

A call that begins to wait adds one listener for events and one for the end of the link, and starts
a timer. Whichever of the three ends the wait takes all of them away, while the others that are to
be called at the same moment may not have been called yet. All the same, there are always two
listeners and one timer for each wait that goes on, and none for any other.

## Main definitions

* `DebugWire.Hooks` — the listeners and the timers.
* `DebugWire.Hooks.callAll` — listeners or timers that are called one after the other.
* `DebugWire.Hooks.act`, `DebugWire.Hooks.run` — what signals make of them.
* `DebugWire.Hooks.Holds` — listeners and timers of the given waits, and no others.

## Main results

* `DebugWire.Hooks.holds_act` — one signal.
* `DebugWire.Hooks.holds_run` — signals, one after the other.
-/

namespace DebugWire

/-- The listeners and the timers of waits, each with the number of its wait, in the order in which
they were added. -/
structure Hooks where
  /-- The listeners for events. -/
  events : List (ℕ × Wait)
  /-- The listeners for the end of the link. -/
  closes : List (ℕ × Wait)
  /-- The timers that run. -/
  timers : List (ℕ × Wait)
  /-- How many waits have begun. -/
  count : ℕ

namespace Hooks

/-- Neither listeners nor timers. -/
def empty : Hooks := ⟨[], [], [], 0⟩

/-- The two listeners and the timer of a wait that begins. -/
def add (h : Hooks) (w : Wait) : Hooks :=
  ⟨h.events ++ [(h.count, w)], h.closes ++ [(h.count, w)], h.timers ++ [(h.count, w)], h.count + 1⟩

/-- The two listeners and the timer of a wait are taken away. -/
def cleanup (h : Hooks) (n : ℕ) : Hooks where
  events := h.events.filter fun p => p.1 ≠ n
  closes := h.closes.filter fun p => p.1 ≠ n
  timers := h.timers.filter fun p => p.1 ≠ n
  count := h.count

/-- Listeners or timers are called one after the other. They are those that were there when the
first one was called. A wait that the signal ends cleans up, and then its call is settled. -/
def callAll (h : Hooks) (s : Signal) : List (ℕ × Wait) → Hooks × List ClientTrace
  | [] => (h, [])
  | (n, w) :: called =>
    match w.outcome s with
    | some result =>
      let (h', t) := (h.cleanup n).callAll s called
      (h', ClientTrace.ofWait w result ++ t)
    | none => h.callAll s called

/-- What a signal makes of listeners and timers. An event and the end of the link call all listeners
for that. The clock calls the timers whose time is over, the earliest first. -/
def act (h : Hooks) : Signal → Hooks × List ClientTrace
  | .made w => (h.add w, [])
  | .refused call f => (h, [.settled call (.error f)])
  | .heard e => h.callAll (.heard e) h.events
  | .gone => h.callAll .gone h.closes
  | .reached now =>
    h.callAll (.reached now)
      ((h.timers.filter fun p => p.2.isDue now).mergeSort fun p q => p.2.deadline.le q.2.deadline)

/-- What signals make of listeners and timers, one after the other. -/
def run (h : Hooks) : List Signal → Hooks × List ClientTrace
  | [] => (h, [])
  | s :: ss =>
    let (h₁, t₁) := h.act s
    let (h₂, t₂) := h₁.run ss
    (h₂, t₁ ++ t₂)

/-- Listeners and timers *hold* waits: there are two listeners and one timer for each of them, under
a number of its own, and none for any other. -/
structure Holds (h : Hooks) (waits : List Wait) : Prop where
  /-- The listeners for events. -/
  events : h.events.map Prod.snd = waits
  /-- The listeners for the end of the link. -/
  closes : h.closes = h.events
  /-- The timers. -/
  timers : h.timers = h.events
  /-- The numbers are those of waits that have begun. -/
  lt_count : ∀ p ∈ h.events, p.1 < h.count
  /-- No two waits have one number. -/
  nodup : (h.events.map Prod.fst).Nodup

variable {h : Hooks} {s : Signal} {waits : List Wait} {called : List (ℕ × Wait)}

/-- There is nothing for no waits: neither timers nor listeners, and nothing to let go of. -/
lemma holds_empty : empty.Holds [] :=
  ⟨rfl, rfl, rfl, fun _ hp => absurd hp List.not_mem_nil, List.nodup_nil⟩

/-! ## One signal -/

/-- A wait begins.

**Proof sketch.** The new wait takes the next number, which is greater than all that are in use, so
the numbers stay apart. -/
lemma Holds.add (hw : h.Holds waits) (w : Wait) : (h.add w).Holds (waits ++ [w]) where
  events := by rw [Hooks.add, List.map_append, hw.events]; rfl
  closes := by rw [Hooks.add, hw.closes]
  timers := by rw [Hooks.add, hw.timers]
  lt_count := by
    intro p hp
    rcases List.mem_append.1 hp with hp | hp
    · exact Nat.lt_succ_of_lt (hw.lt_count p hp)
    · rw [List.mem_singleton.1 hp]
      exact Nat.lt_succ_self _
  nodup := by
    rw [Hooks.add, List.map_append]
    refine List.nodup_append.2 ⟨hw.nodup, List.nodup_singleton _, fun n hn k hk => ?_⟩
    obtain ⟨p, hp, rfl⟩ := List.mem_map.1 hn
    rw [List.mem_singleton.1 hk]
    exact Nat.ne_of_lt (hw.lt_count p hp)

/-- The numbers of the waits that a signal ends, among those that are called. -/
def ended (s : Signal) (called : List (ℕ × Wait)) : List ℕ :=
  (called.filter fun p => (p.2.outcome s).isSome).map Prod.fst

/-- What is taken away step by step is taken away as a whole.

**Proof sketch.** Induction on those that are called. One that the signal ends takes its own
listeners and timer away, so the lists that are left are filtered once more; one that it does not
end takes nothing away. -/
lemma callAll_eq (h : Hooks) (s : Signal) (called : List (ℕ × Wait)) :
    h.callAll s called =
      (⟨h.events.filter fun p => p.1 ∉ ended s called,
        h.closes.filter fun p => p.1 ∉ ended s called,
        h.timers.filter fun p => p.1 ∉ ended s called, h.count⟩,
          called.flatMap fun p => p.2.ending s) := by
  induction called generalizing h with
  | nil => simp [callAll, ended]
  | cons p called ih =>
    obtain ⟨n, w⟩ := p
    rw [callAll, List.flatMap_cons, Wait.ending]
    cases hw : w.outcome s with
    | none =>
      have hended : ended s ((n, w) :: called) = ended s called := by
        rw [ended, List.filter_cons_of_neg (by simp [hw]), ended]
      dsimp only
      rw [ih, hended, List.nil_append]
    | some result =>
      have hended : ended s ((n, w) :: called) = n :: ended s called := by
        rw [ended, List.filter_cons_of_pos (by simp [hw]), List.map_cons, ended]
      dsimp only
      rw [ih, hended]
      simp only [cleanup, List.filter_filter, List.mem_cons, not_or, Bool.decide_and,
        Bool.and_comm, ne_eq]

/-- The waits of those that are called end if the signal ends them, and nothing is left of these.

**Proof sketch.** As numbers are not used twice, the entries whose number belongs to a wait that
ends are just those whose wait ends. So filtering by number leaves the entries of the waits that go
on. -/
lemma Holds.callAll (hw : h.Holds waits)
    (hcalled : ∀ p, (p.2.outcome s).isSome = true → (p ∈ called ↔ p ∈ h.events)) :
    (h.callAll s called).1.Holds (waits.filter fun w => (w.outcome s).isNone) := by
  have hgone : ∀ p ∈ h.events, decide (p.1 ∉ ended s called) = (p.2.outcome s).isNone := by
    intro p hp
    rw [Bool.eq_iff_iff, decide_eq_true_iff, ← Option.not_isSome, Bool.not_eq_true',
      ← Bool.not_eq_true]
    refine not_congr ⟨fun hn => ?_, fun hsome => ?_⟩
    · obtain ⟨q, hq, hnumber⟩ := List.mem_map.1 hn
      obtain ⟨hq, hsome⟩ := List.mem_filter.1 hq
      obtain rfl := List.inj_on_of_nodup_map hw.nodup ((hcalled q hsome).1 hq) hp hnumber
      exact hsome
    · exact List.mem_map_of_mem (List.mem_filter.2 ⟨(hcalled p hsome).2 hp, hsome⟩)
  rw [callAll_eq, hw.closes, hw.timers, List.filter_congr hgone]
  exact {
    events := by
      rw [← hw.events, List.filter_map]
      rfl
    closes := rfl
    timers := rfl
    lt_count := fun p hp => hw.lt_count p (List.mem_of_mem_filter hp)
    nodup := hw.nodup.sublist (List.filter_sublist.map _) }

/-- The timers whose time is over are called in the order of their waits. -/
lemma map_sorted_timers (now : Number) (timers : List (ℕ × Wait)) :
    ((timers.filter fun p => p.2.isDue now).mergeSort fun p q => p.2.deadline.le q.2.deadline).map
      Prod.snd = Wait.due now (timers.map Prod.snd) := by
  have hsort := List.map_mergeSort (f := Prod.snd) (s := fun v w : Wait => v.deadline.le w.deadline)
    (r := fun p q : ℕ × Wait => p.2.deadline.le q.2.deadline)
    fun p (_ : p ∈ timers.filter fun p => p.2.isDue now) q _ => rfl
  rw [hsort, Wait.due, List.filter_map]
  rfl

/-- **One signal**: listeners and timers hold the waits that go on afterwards, and the same calls
are settled.

**Proof sketch.** By cases on the signal. Those that are called are all listeners, or the timers
that are due; `Holds.callAll` takes care of both, as the clock ends no wait whose time is not over.
-/
theorem holds_act (hw : h.Holds waits) (s : Signal) :
    (h.act s).1.Holds (Signal.act waits s).1 ∧ (h.act s).2 = (Signal.act waits s).2 := by
  have htrace (called : List (ℕ × Wait)) :
      (h.callAll s called).2 = (called.map Prod.snd).flatMap (Wait.ending s) := by
    rw [callAll_eq, List.flatMap_map]
  cases s with
  | made w => exact ⟨hw.add w, rfl⟩
  | refused call f => exact ⟨hw, rfl⟩
  | heard e =>
    refine ⟨hw.callAll fun _ _ => Iff.rfl, ?_⟩
    rw [act, htrace, hw.events]
    rfl
  | gone =>
    rw [act, hw.closes]
    refine ⟨hw.callAll fun _ _ => Iff.rfl, ?_⟩
    rw [htrace, hw.events]
    rfl
  | reached now =>
    rw [act, hw.timers]
    refine ⟨hw.callAll fun p hsome => ?_, ?_⟩
    · -- A wait that the clock ends is one whose time is over.
      have hdue : p.2.isDue now = true := by
        by_contra hnot
        rw [Wait.outcome, if_neg hnot] at hsome
        cases hsome
      rw [List.mem_mergeSort, List.mem_filter, and_iff_left hdue]
    · rw [htrace, map_sorted_timers, hw.events]
      rfl

/-- **Signals, one after the other**: listeners and timers hold the waits that go on, and the same
calls are settled. -/
theorem holds_run (hw : h.Holds waits) (ss : List Signal) :
    (h.run ss).1.Holds (Signal.run waits ss).1 ∧ (h.run ss).2 = (Signal.run waits ss).2 := by
  induction ss generalizing h waits with
  | nil => exact ⟨hw, rfl⟩
  | cons s ss ih =>
    obtain ⟨hact, htrace⟩ := holds_act hw s
    obtain ⟨hrest, htraces⟩ := ih hact
    exact ⟨hrest, congrArg₂ (· ++ ·) htrace htraces⟩

end Hooks

end DebugWire
