import DebugWire.Engine.Relay
import DebugWire.Proofs.Breakpoints
import DebugWire.Proofs.Machine.Calls
import Mathlib.Data.List.Basic
import Mathlib.Data.List.Induction

set_option relaxedAutoImplicit false
set_option autoImplicit false

/-!
# What a relay lets out

A relay that is attached listens to its machine: it has added one listener to each of the two
channels, and these are called whenever the machine prints. It adds none while it is attached, and
it takes both away when it is detached. So whatever was done with it, in whatever order, a text is
let out once or not at all. The request that is open is the last one, unless input was taken since;
only input for it is taken, and the machine is given that once.

## Main definitions

* `DebugWire.Relay.Station` — a relay at its machine, with its listeners.
* `DebugWire.Relay.Station.act`, `DebugWire.Relay.Station.run` — what is done with it, once and
  again.
* `DebugWire.Relay.IsOn`, `DebugWire.Relay.IsOpen` — what a history says about listeners and
  requests.
* `DebugWire.Relay.Tells` — the events of an action by the actions before it.
* `DebugWire.Relay.RelaysOnce` — what a station shows of its history.

## Main results

* `DebugWire.Relay.Station.hear_eq` — what listeners make of a text is what the relay makes of it.
* `DebugWire.Relay.Station.attached_act`, `DebugWire.Relay.Station.pending_act`,
  `DebugWire.Relay.Station.machine_act` — one action.
* `DebugWire.Relay.relays_once` — any history.
-/

namespace DebugWire.Relay

/-! ## Actions -/

/-- What is done with a relay, or printed by its machine. -/
inductive Action where
  /-- It is attached. -/
  | attach
  /-- It is detached. -/
  | detach
  /-- Input of a kind is asked for. -/
  | request (kind : InputKind)
  /-- Input is offered. -/
  | supply (input : Input)
  /-- The machine prints a text. -/
  | printed (p : Printed)
  deriving DecidableEq

/-- What comes of an action. -/
structure Turn where
  /-- The action. -/
  action : Action
  /-- What it gives back, if it gives back anything, or its fault. -/
  result : Except Fault (Option RunResult)
  /-- The events that are let out. -/
  events : List Event

/-- The input that a turn has taken. -/
def Turn.taken? (turn : Turn) : Option Input :=
  match turn.action, turn.result with
  | .supply i, .ok _ => some i
  | _, _ => none

/-- After a turn that *settles* requests, none from before is open: input was asked for anew, or was
taken. -/
def Turn.Settles (turn : Turn) : Prop :=
  (∃ kind, turn.action = .request kind) ∨ ∃ i, turn.taken? = some i

/-! ## Stations -/

/-- A relay at its machine. -/
structure Station where
  /-- The relay. -/
  relay : Relay
  /-- The machine. -/
  machine : Machine
  /-- The channels that are listened to, each once for every listener, in the order in which these
  were added. -/
  listeners : List Channel

namespace Station

/-- A relay that nothing was done with yet. -/
def start (m : Machine) : Station := ⟨.detached, m, []⟩

/-- Adds a listener to both channels, unless the relay is attached. -/
def listen (t : Station) : Station :=
  if t.relay.attached then t
  else { t with relay := t.relay.attach, listeners := t.listeners ++ [.output, .errorOutput] }

/-- Takes one listener away from both channels if the relay is attached. -/
def cease (t : Station) : Station :=
  if t.relay.attached then
    { t with relay := t.relay.detach, listeners := (t.listeners.erase .output).erase .errorOutput }
  else t

/-- What listeners make of a text. All that listen to its channel are called, and each makes an
event of it unless it is empty. -/
def hear (t : Station) (p : Printed) : List Event :=
  (t.listeners.filter fun channel => channel = p.1).flatMap fun channel =>
    if p.2.isEmpty then [] else [channel.event p.2]

/-- What comes of one action. -/
def act (t : Station) (x : Action) : Station × Turn :=
  match x with
  | .attach => (t.listen, ⟨x, .ok none, []⟩)
  | .detach => (t.cease, ⟨x, .ok none, []⟩)
  | .request kind =>
    let (relay, event) := t.relay.request kind
    ({ t with relay := relay }, ⟨x, .ok none, [event]⟩)
  | .supply i =>
    let (relay, call) := t.relay.supply t.machine i
    ({ t with relay := relay, machine := call.machine },
      ⟨x, call.result.map some, call.printed.flatMap t.hear⟩)
  | .printed p => (t, ⟨x, .ok none, t.hear p⟩)

/-- What comes of actions, one after the other. -/
def run (t : Station) (xs : List Action) : Station × List Turn :=
  xs.foldl (fun r x => ((r.1.act x).1, r.2 ++ [(r.1.act x).2])) (t, [])

/-- A station is *sound* if there is one listener at each channel while its relay is attached and
none otherwise, and no call of its machine is overridden. -/
structure Sound (t : Station) : Prop where
  /-- The listeners. -/
  listeners : t.listeners = if t.relay.attached then [.output, .errorOutput] else []
  /-- The machine. -/
  plain : t.machine.Plain

end Station

/-! ## Histories -/

/-- A relay *is on* after actions if it was attached and not detached since. -/
def IsOn (xs : List Action) : Prop :=
  ∃ before after, xs = before ++ .attach :: after ∧ .detach ∉ after

/-- A request *is open* after turns if it was made, and neither was another one made since, nor
input taken. -/
def IsOpen (turns : List Turn) (kind : InputKind) : Prop :=
  ∃ before turn after, turns = before ++ turn :: after ∧ turn.action = .request kind ∧
    ∀ later ∈ after, ¬ later.Settles

/-- The events that an action *tells* after others: a text is told if it is not empty and the relay
is on. A request is told whether it is on or not, and of nothing else is there any event. -/
inductive Tells (earlier : List Action) : Action → List Event → Prop
  | attach : Tells earlier .attach []
  | detach : Tells earlier .detach []
  | request (kind : InputKind) : Tells earlier (.request kind) [kind.requested]
  | supply (i : Input) : Tells earlier (.supply i) []
  | empty (channel : Channel) : Tells earlier (.printed (channel, "")) []
  | held (p : Printed) : ¬ IsOn earlier → Tells earlier (.printed p) []
  | relayed (p : Printed) : IsOn earlier → p.2 ≠ "" → Tells earlier (.printed p) [p.1.event p.2]

/-- A station with its turns *relays once* what a machine prints, and gives it what was asked for.
-/
structure RelaysOnce (m : Machine) (xs : List Action) (result : Station × List Turn) : Prop where
  /-- Each action has one turn, in their order. -/
  actions : result.2.map Turn.action = xs
  /-- At each turn there are the events that its action tells after those before it. -/
  tells : ∀ before turn after, result.2 = before ++ turn :: after →
    Tells (before.map Turn.action) turn.action turn.events
  /-- The relay is attached exactly if it is on by the actions. -/
  attached_iff : result.1.relay.attached = true ↔ IsOn xs
  /-- There is one listener at each channel while it is attached, and none otherwise. -/
  listeners : result.1.listeners = if result.1.relay.attached then [.output, .errorOutput] else []
  /-- What the listeners make of a text is what the relay makes of it. -/
  hear : ∀ p, result.1.hear p = result.1.relay.events [p]
  /-- A request is pending exactly if it is open by the turns. -/
  pending_iff : ∀ kind, result.1.relay.pending = some kind ↔ IsOpen result.2 kind
  /-- Input of the kind that is pending is taken: the machine is given it, and nothing is pending
  after that. -/
  taken : ∀ i, result.1.relay.pending = some i.kind →
    result.1.act (.supply i) =
      ({ result.1 with relay.pending := none, machine := (i.deliver result.1.machine).machine },
      ⟨.supply i, .ok (some .ok), []⟩)
  /-- Any other input is refused, which leaves the station as it is. -/
  refused : ∀ i, result.1.relay.pending ≠ some i.kind → ∃ f, f.kind = .violation ∧
    f = .unexpectedInput i.kind result.1.relay.pending ∧
    result.1.act (.supply i) = (result.1, ⟨.supply i, .error f, []⟩)
  /-- The machine was given each input that was taken, once, and nothing else was done to it. -/
  machine :
    result.1.machine = (result.2.filterMap Turn.taken?).foldl (fun m i => (i.deliver m).machine) m

namespace Station

variable {t : Station} {m : Machine} {i : Input} {x : Action} {xs earlier : List Action}

/-! ## One action -/

/-- Adding listeners attaches the relay, whatever listeners there have been. -/
@[simp]
lemma relay_listen (t : Station) : t.listen.relay = t.relay.attach := by
  obtain ⟨⟨attached, pending⟩, machine, listeners⟩ := t
  cases attached <;> rfl

/-- Beginning to listen leaves the machine as it is. -/
@[simp]
lemma machine_listen (t : Station) : t.listen.machine = t.machine := by
  unfold listen
  split_ifs <;> rfl

/-- Taking listeners away detaches the relay, and leaves what the program has asked for. -/
@[simp]
lemma relay_cease (t : Station) : t.cease.relay = t.relay.detach := by
  obtain ⟨⟨attached, pending⟩, machine, listeners⟩ := t
  cases attached <;> rfl

/-- Ceasing to listen leaves the machine as it is. -/
@[simp]
lemma machine_cease (t : Station) : t.cease.machine = t.machine := by
  unfold cease
  split_ifs <;> rfl

/-- What listeners make of a text is what the relay makes of it. -/
lemma hear_eq (h : t.Sound) (p : Printed) : t.hear p = t.relay.events [p] := by
  obtain ⟨channel, text⟩ := p
  rw [hear, events, h.listeners]
  by_cases ha : t.relay.attached
  · -- Of the two listeners, only that of the channel is called.
    rw [if_pos ha, if_pos ha]
    cases channel <;> cases hempty : text.isEmpty <;> simp [hempty]
  · rw [if_neg ha, if_neg ha]
    rfl

/-- Input makes a machine without overrides print nothing, and it is taken without a fault. -/
lemma exists_deliver_eq (h : m.Plain) (i : Input) :
    ∃ m' : Machine, i.deliver m = .done m' .ok ∧ m'.Plain := by
  cases i with
  | key key => exact ⟨_, h.supplyKey_eq key, h⟩
  | string text => exact ⟨_, h.supplyString_eq text, h⟩

/-- Input of the kind that is pending is delivered, and nothing is pending then. -/
lemma act_supply_of_eq (h : t.Sound) (hp : t.relay.pending = some i.kind) :
    t.act (.supply i) = ({ t with relay.pending := none, machine := (i.deliver t.machine).machine },
      ⟨.supply i, .ok (some .ok), []⟩) := by
  obtain ⟨m', hm, -⟩ := exists_deliver_eq h.plain i
  have hr : t.relay.refusal i.kind = none := if_pos hp
  simp only [act, supply, hr, hm]
  rfl

/-- Input of any other kind is refused, and the station stays as it is. -/
lemma act_supply_of_ne (hp : t.relay.pending ≠ some i.kind) :
    t.act (.supply i) = (t, ⟨.supply i, .error (.unexpectedInput i.kind t.relay.pending), []⟩) := by
  have hr : t.relay.refusal i.kind = some (.unexpectedInput i.kind t.relay.pending) := if_neg hp
  simp only [act, supply, hr]
  rfl

/-- The turn of an action is about it, so turns can be told apart by their actions. -/
lemma action_act (t : Station) (x : Action) : (t.act x).2.action = x := by
  cases x <;> rfl

/-- **One action** leaves the station sound.

**Proof sketch.** Listening and ceasing keep the number of listeners in step with the relay. An
input that is delivered leaves a plain machine plain, and every other action leaves the listeners
and the machine. -/
theorem Sound.act (h : t.Sound) (x : Action) : (t.act x).1.Sound := by
  cases x with
  | attach =>
    show t.listen.Sound
    unfold listen
    split_ifs with ha
    · exact h
    · exact ⟨by rw [h.listeners, if_neg ha]; rfl, h.plain⟩
  | detach =>
    show t.cease.Sound
    unfold cease
    split_ifs with ha
    · exact ⟨by rw [h.listeners, if_pos ha]; rfl, h.plain⟩
    · exact h
  | request kind => exact ⟨h.listeners, h.plain⟩
  | supply i =>
    by_cases hp : t.relay.pending = some i.kind
    · obtain ⟨m', hm, hplain⟩ := exists_deliver_eq h.plain i
      rw [act_supply_of_eq h hp, hm]
      exact ⟨h.listeners, hplain⟩
    · rw [act_supply_of_ne hp]
      exact h
  | printed p => exact h

/-- **One action** attaches the relay or detaches it, or leaves it as it was. -/
theorem attached_act (h : t.Sound) :
    (t.act x).1.relay.attached = true ↔ x = .attach ∨ t.relay.attached = true ∧ x ≠ .detach := by
  cases x with
  | supply i =>
    by_cases hp : t.relay.pending = some i.kind
    · simp [act_supply_of_eq h hp]
    · simp [act_supply_of_ne hp]
  | attach | detach | request kind | printed p => simp [act, Relay.attach, Relay.detach, request]

/-- **One action** opens a request, or leaves the one that was open unless it settles that. -/
theorem pending_act (h : t.Sound) {kind : InputKind} :
    (t.act x).1.relay.pending = some kind ↔
      x = .request kind ∨ t.relay.pending = some kind ∧ ¬ (t.act x).2.Settles := by
  cases x with
  | supply i =>
    by_cases hp : t.relay.pending = some i.kind
    · simp [act_supply_of_eq h hp, Turn.Settles, Turn.taken?]
    · simp [act_supply_of_ne hp, Turn.Settles, Turn.taken?]
  | attach | detach | request kind | printed p =>
    simp [act, Relay.attach, Relay.detach, request, Turn.Settles, Turn.taken?]

/-- **One action** gives the machine the input that it takes, and otherwise leaves the machine as it
was.

**Proof sketch.** Attaching and detaching do not ask the machine anything, and input is delivered
only if it is of the kind that is pending. -/
theorem machine_act (h : t.Sound) (x : Action) :
    (t.act x).1.machine = (t.act x).2.taken?.elim t.machine fun i =>
      (i.deliver t.machine).machine := by
  cases x with
  | attach => exact machine_listen t
  | detach => exact machine_cease t
  | supply i =>
    by_cases hp : t.relay.pending = some i.kind
    · rw [act_supply_of_eq h hp]
      rfl
    · rw [act_supply_of_ne hp]
      rfl
  | request kind | printed p => rfl

/-- **One action** lets out the events that it tells.

**Proof sketch.** One case for each action. Of those only a text that is printed while the relay
listens tells an event, and an empty text tells none. -/
theorem tells_act (h : t.Sound) (hon : t.relay.attached = true ↔ IsOn earlier) (x : Action) :
    Tells earlier x (t.act x).2.events := by
  cases x with
  | attach => exact .attach
  | detach => exact .detach
  | request kind => exact .request kind
  | supply i =>
    by_cases hp : t.relay.pending = some i.kind
    · rw [act_supply_of_eq h hp]
      exact .supply i
    · rw [act_supply_of_ne hp]
      exact .supply i
  | printed p =>
    obtain ⟨channel, text⟩ := p
    show Tells earlier _ (t.hear (channel, text))
    rw [hear_eq h, events]
    by_cases ha : t.relay.attached
    · rw [if_pos ha]
      by_cases hempty : text = ""
      · subst hempty
        exact .empty channel
      · rw [List.filter_cons_of_pos (by simpa using hempty)]
        exact .relayed (channel, text) (hon.1 ha) hempty
    · rw [if_neg ha]
      exact .held _ fun hn => ha (hon.2 hn)

/-! ## Any number of actions -/

/-- One more action is done by the station that the others have left, and its turn is the last. -/
lemma run_append_singleton (t : Station) (xs : List Action) (x : Action) :
    t.run (xs ++ [x]) = (((t.run xs).1.act x).1, (t.run xs).2 ++ [((t.run xs).1.act x).2]) :=
  List.foldl_concat ..

/-- A station that nothing was done with is sound. -/
lemma sound_start (h : m.Plain) : (start m).Sound := ⟨rfl, h⟩

/-- Any actions leave a station sound, in any order and number. -/
lemma Sound.run (h : t.Sound) (xs : List Action) : (t.run xs).1.Sound := by
  induction xs using List.reverseRecOn with
  | nil => exact h
  | append_singleton xs x ih =>
    rw [run_append_singleton]
    exact ih.act x

/-- The turns are about the actions, one for each and in the same order. -/
lemma actions_run (t : Station) (xs : List Action) : (t.run xs).2.map Turn.action = xs := by
  induction xs using List.reverseRecOn with
  | nil => rfl
  | append_singleton xs x ih =>
    rw [run_append_singleton, List.map_append, ih, List.map_singleton, action_act]

/-- The relay is attached after actions exactly if it is on by them. -/
lemma attached_run (h : m.Plain) (xs : List Action) :
    ((start m).run xs).1.relay.attached = true ↔ IsOn xs := by
  induction xs using List.reverseRecOn with
  | nil =>
    refine iff_of_false Bool.false_ne_true ?_
    rintro ⟨before, after, hxs, -⟩
    exact List.append_ne_nil_of_right_ne_nil before (List.cons_ne_nil _ _) hxs.symm
  | append_singleton xs x ih =>
    rw [run_append_singleton, attached_act ((sound_start h).run xs), ih, IsOn, IsOn,
      Breakpoints.exists_append_singleton_iff]

/-- A request is pending after actions exactly if it is open by their turns. -/
lemma pending_run (h : m.Plain) (xs : List Action) (kind : InputKind) :
    ((start m).run xs).1.relay.pending = some kind ↔ IsOpen ((start m).run xs).2 kind := by
  induction xs using List.reverseRecOn with
  | nil =>
    refine iff_of_false nofun ?_
    rintro ⟨before, turn, after, hturns, -⟩
    exact List.append_ne_nil_of_right_ne_nil before (List.cons_ne_nil _ _) hturns.symm
  | append_singleton xs x ih =>
    rw [run_append_singleton, pending_act ((sound_start h).run xs), ih, IsOpen, IsOpen,
      Breakpoints.exists_last_append_singleton_iff, action_act]

/-- The machine after actions is the one that was given each input that was taken. -/
lemma machine_run (h : m.Plain) (xs : List Action) :
    ((start m).run xs).1.machine =
      (((start m).run xs).2.filterMap Turn.taken?).foldl (fun m i => (i.deliver m).machine) m := by
  induction xs using List.reverseRecOn with
  | nil => rfl
  | append_singleton xs x ih =>
    rw [run_append_singleton, machine_act ((sound_start h).run xs), ih, List.filterMap_append,
      List.foldl_append]
    cases ht : (((start m).run xs).1.act x).2.taken? with
    | none => simp [ht]
    | some i => simp [ht]

/-- At each turn there are the events that its action tells.

**Proof sketch.** Induction on the actions from the last one. That one is a turn of the station
which the actions before have led to, and any earlier turn is one of the shorter run. -/
lemma tells_run (h : m.Plain) (xs : List Action) : ∀ before turn after,
    ((start m).run xs).2 = before ++ turn :: after →
      Tells (before.map Turn.action) turn.action turn.events := by
  induction xs using List.reverseRecOn with
  | nil =>
    intro before turn after hturns
    exact absurd hturns.symm (List.append_ne_nil_of_right_ne_nil before (List.cons_ne_nil _ _))
  | append_singleton xs x ih =>
    intro before turn after hturns
    -- The last turn is decided by the actions before it, and any other one is a turn of the shorter
    -- history.
    rw [run_append_singleton] at hturns
    rcases List.eq_nil_or_concat after with rfl | ⟨rest, last, rfl⟩
    · obtain ⟨rfl, hturn⟩ := List.append_inj' hturns rfl
      obtain rfl := (List.cons.inj hturn).1
      rw [actions_run, action_act]
      exact tells_act ((sound_start h).run xs) (attached_run h xs) x
    · rw [List.concat_eq_append, ← List.cons_append, ← List.append_assoc] at hturns
      exact ih before turn rest (List.append_inj' hturns rfl).1

end Station

open Station in
/-- **A relay lets out each text once** while it is on, and gives the machine what was asked for,
whatever is done with it.

**Proof sketch.** The listeners follow the relay at each action (`Station.Sound`), so what they make
of a text is what the relay makes of it. What is attached, pending and given to the machine after
one more action depends on the state before and on that action alone, and the history is read from
its end in the same way. -/
theorem relays_once {m : Machine} (h : m.Plain) (xs : List Action) :
    RelaysOnce m xs ((start m).run xs) where
  actions := actions_run _ xs
  tells := tells_run h xs
  attached_iff := attached_run h xs
  listeners := ((sound_start h).run xs).listeners
  hear := hear_eq ((sound_start h).run xs)
  pending_iff := pending_run h xs
  taken _ hp := act_supply_of_eq ((sound_start h).run xs) hp
  refused _ hp := ⟨_, rfl, rfl, act_supply_of_ne hp⟩
  machine := machine_run h xs

open Station in
/-- A relay that is attached twice, and asked for a key but offered a string first. -/
theorem relays_once_initial :
    (Machine.initial [] 4 {}).Plain ∧
      RelaysOnce (.initial [] 4 {})
        [.attach, .attach, .printed (.output, "a"), .request .key, .supply (.string "b"),
          .supply (.key "c")]
        ((start (.initial [] 4 {})).run
          [.attach, .attach, .printed (.output, "a"), .request .key, .supply (.string "b"),
            .supply (.key "c")]) :=
  have h : (Machine.initial [] 4 {}).Plain := rfl
  ⟨h, relays_once h _⟩

/-- Attached twice and detached once, a relay lets out nothing more. -/
example :
    ((Station.start (.initial [] 4 {})).run [.printed (.output, "a"), .attach, .attach,
      .printed (.errorOutput, "b"),
      .printed (.output, ""), .request .string, .detach, .printed (.output, "c")]).2.flatMap
        Turn.events = [.errorOutput "b", .stringRequested] := by
  decide +kernel

end DebugWire.Relay
