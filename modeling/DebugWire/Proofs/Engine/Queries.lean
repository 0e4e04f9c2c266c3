import DebugWire.Client.Wait
import DebugWire.Proofs.Engine.Emission
import DebugWire.Proofs.Engine.Handling
import DebugWire.Proofs.Machine.Sound

set_option relaxedAutoImplicit false
set_option autoImplicit false

/-!
# Queries

A client can ask for three things: the registers, bytes of memory, and the stack. An engine that has
not come to its end answers such a command with one event, unless the machine refuses it, and lets
out no such event for any other reason.

## Main definitions

* `DebugWire.Query` — what a client can ask for.
* `DebugWire.Emission.answers` — the events of a trace that answer a query.
* `DebugWire.Engine.answer?` — the event that answers a command.
* `DebugWire.Machine.Shows` — the answer to a query, as the machine has it.
* `DebugWire.Engine.moments` — the moments at which commands are handled.
* `DebugWire.Engine.Computes` — what is computed for one of many commands.

## Main results

* `DebugWire.Engine.answers_handle` — the answers of one command.
* `DebugWire.Engine.shows_of_answer?` — what a sound machine is asked for is what it has.
* `DebugWire.Engine.exists_computes_of_answersTo`, `DebugWire.Engine.Computes.unique` — the command
  that an answer was computed for.
-/

namespace DebugWire

/-! ## Kinds of queries -/

/-- What a client can ask for. -/
inductive Query where
  /-- The registers. -/
  | dump
  /-- Bytes of memory. -/
  | memory
  /-- The bytes of the stack. -/
  | stack
  deriving DecidableEq

/-- The kind of event that answers a query. -/
def Query.tag : Query → EventTag
  | dump => .dumpResult
  | memory => .memoryResult
  | stack => .stackResult

/-- The part of that event that the caller wants. -/
def Query.wanted : Query → Wanted
  | dump => .snapshot
  | memory | stack => .bytes

/-- The query that a command makes. -/
def Command.query? : Command → Option Query
  | requestDump => some .dump
  | requestMemory .. => some .memory
  | requestStack => some .stack
  | _ => none

/-- The frames of a query carry it as it is. -/
lemma Command.carried_of_query? {c : Command} {q : Query} (h : c.query? = some q) :
    c.carried = c := by
  cases c with
  | inputString text => cases h
  | _ => rfl

/-- The query that an event answers. -/
def Event.query? : Event → Option Query
  | dumpResult _ => some .dump
  | memoryResult _ => some .memory
  | stackResult _ => some .stack
  | _ => none

/-- An event answers a query exactly if it is of the kind that does. -/
lemma Event.query?_eq_some_iff {ev : Event} {q : Query} : ev.query? = some q ↔ q.tag = ev.tag := by
  cases ev <;> cases q <;> simp [query?, Query.tag, tag]

/-! ## Answers -/

namespace Emission

/-- The events of a trace that answer a query, in order. -/
def answers (trace : List Emission) : List Event := (events trace).filter fun ev => ev.query?.isSome

/-- The answers in two traces are those in the first and then those in the second. -/
@[simp]
lemma answers_append (trace trace' : List Emission) :
    answers (trace ++ trace') = answers trace ++ answers trace' := by
  rw [answers, events_append, List.filter_append]
  rfl

/-- A note in front of a trace is no answer. -/
@[simp]
lemma answers_note_cons (level : LogLevel) (text : String) (trace : List Emission) :
    answers (note level text :: trace) = answers trace := rfl

end Emission

namespace Engine

open Emission (answers)

variable {e : Engine}

/-- The event that answers a command, if it makes a query that is answered. -/
def answer? (e : Engine) (c : Command) : Option Event :=
  if e.terminated then none
  else
    match c with
    | .requestDump => e.machine.registers.result.toOption.map fun regs => .dumpResult regs.serialize
    | .requestMemory first limit =>
      (e.machine.readRange first limit).result.toOption.map .memoryResult
    | .requestStack => e.machine.readStack.result.toOption.map .stackResult
    | _ => none

/-- The event that answers a command answers the query that the command makes. -/
lemma query?_of_answer? {c : Command} {ev : Event} (h : e.answer? c = some ev) :
    ev.query? = c.query? := by
  unfold answer? at h
  split_ifs at h
  cases c with
  | requestDump | requestMemory first limit | requestStack =>
    obtain ⟨a, -, rfl⟩ := Option.map_eq_some_iff.1 h
    rfl
  | _ => cases h

/-- What is relayed of printed texts answers no query. -/
lemma answers_relayed (e : Engine) (printed : List Printed) : answers (e.relayed printed) = [] := by
  rw [relayed, answers, Emission.events_map_event, List.filter_eq_nil_iff, Relay.events]
  intro ev hev
  split_ifs at hev
  · obtain ⟨⟨channel, text⟩, -, rfl⟩ := List.mem_map.1 hev
    cases channel <;> exact Bool.false_ne_true
  · cases hev

/-- What is let out for a call of the machine answers a query if the work with its result does. -/
lemma answers_took {α : Type} {call : Machine.Call α} {next : Engine → α → Work} :
    answers (e.took call next).trace =
      (call.result.toOption.map fun a =>
        answers (next { e with machine := call.machine } a).trace).getD [] := by
  unfold took
  cases call.result with
  | ok a => rw [Emission.answers_append, answers_relayed, List.nil_append]; rfl
  | error f => exact answers_relayed e call.printed

/-- What is said of a crash answers no query.

**Proof sketch.** The text of the reason is an error output, and the end is an event of its own;
neither answers a query. -/
lemma answers_crash (e : Engine) (reason : Option String) : answers (e.crash reason).2 = [] := by
  have hr : answers (reasonEvent reason) = [] := by
    unfold reasonEvent
    cases reason with
    | none => rfl
    | some text =>
      dsimp only
      split_ifs <;> rfl
  rw [crash, Emission.answers_append, hr]
  rfl

/-- What running the program lets out answers no query.

**Proof sketch.** Running the program lets out what is printed, an event of input that is asked for
or of the end, and notes. None of these answers a query. -/
lemma answers_running (e : Engine) (call : Machine.Call RunResult) :
    answers (e.running call).trace = [] := by
  unfold running
  cases call.result with
  | ok result =>
    rw [Emission.answers_append, answers_relayed, List.nil_append]
    cases result with
    | ok | halted => rfl
    | awaiting kind => cases kind <;> rfl
    | crashed reason => exact answers_crash { e with machine := call.machine } reason
  | error f =>
    dsimp only
    split_ifs
    · exact answers_relayed e call.printed
    · rw [Emission.answers_append, answers_relayed, Emission.answers_note_cons, answers_crash,
        List.append_nil]

/-- What a step lets out answers no query.

**Proof sketch.** A step tells of a breakpoint, or lets out what running the program does, and
neither answers a query. -/
lemma answers_stepOnce (e : Engine) (checkBreakpoints : Bool) :
    answers (e.stepOnce checkBreakpoints).trace = [] := by
  unfold stepOnce
  split
  · rfl
  · rw [answers_took]
    cases e.machine.registers.result with
    | error f => rfl
    | ok regs =>
      change answers (ite _ _ _ : Work).trace = []
      split_ifs
      · rfl
      · exact answers_running _ _

/-- What taking up a fault lets out answers no query. -/
lemma answers_recover (e : Engine) (f : Fault) : answers (e.recover f).2 = [] := by
  by_cases hf : f.kind = .crash
  · rw [recover, if_pos hf, Emission.answers_note_cons, answers_crash]
  · rw [recover, if_neg hf]
    dsimp only
    split_ifs <;> rfl

/-- Applying a command lets out the event that answers it, and no other that answers a query.

**Proof sketch.** One case for each command. A query that the machine answers lets out its answer;
steps, inputs and stores let out events that answer none. -/
lemma answers_apply (he : e.terminated = false) (c : Command) :
    answers (e.apply c).trace = (e.answer? c).toList := by
  unfold answer?
  rw [if_neg (Bool.eq_false_iff.1 he)]
  cases c with
  | step => exact answers_stepOnce e true
  | stepIgnoringBreakpoints => exact answers_stepOnce e false
  | stop => rfl
  | setBreakpoint address | clearBreakpoint address =>
    simp only [apply, withBreakpoints]
    split <;> rfl
  | requestDump =>
    dsimp only
    rw [apply, answers_took]
    cases e.machine.registers.result <;> rfl
  | requestMemory first limit =>
    dsimp only
    rw [apply, answers_took]
    cases (e.machine.readRange first limit).result <;> rfl
  | requestStack =>
    dsimp only
    rw [apply, answers_took]
    cases e.machine.readStack.result <;> rfl
  | setMemory address bytes =>
    rw [apply, answers_took]
    cases (e.machine.writeAt address bytes).result <;> rfl
  | setRegister register value =>
    rw [apply, answers_took]
    cases (e.machine.writeRegister register value).result <;> rfl
  | inputKey key | inputString text => exact answers_running _ _

/-- **One command** lets out the event that answers it, if it makes a query that is answered, and no
other event that answers a query.

**Proof sketch.** An engine that has ended does not handle the command and answers nothing.
Otherwise the work lets out the answer, and recovering from its fault or logging the command adds no
event of the kind. -/
theorem answers_handle (e : Engine) (c : Command) :
    answers (e.handle c).2 = (e.answer? c).toList := by
  cases he : e.terminated with
  | true =>
    have hn : e.answer? c = none := by
      unfold answer?
      exact if_pos he
    rw [handle, if_pos he, hn]
    rfl
  | false =>
    have hlive : answers (e.handleLive c).2 = (e.answer? c).toList := by
      rw [← answers_apply he, handleLive]
      dsimp only
      cases (e.apply c).fault with
      | none => rfl
      | some f => rw [Emission.answers_append, answers_recover, List.append_nil]
    rw [← hlive, handle, if_neg (Bool.eq_false_iff.1 he)]
    dsimp only
    split_ifs <;> rfl

end Engine

/-! ## Values -/

/-- The answer to a query *shows* what a machine has: its registers, the bytes of its memory between
two addresses, or those from its stack pointer on. -/
def Machine.Shows (m : Machine) : Command → Answer → Prop
  | .requestDump, a => a = .snapshot m.regs
  | .requestMemory first limit, a =>
      ∃ n k : ℕ, first = (n : Number) ∧ limit = (k : Number) ∧ n ≤ k ∧
      k ≤ m.size ∧ a = .bytes ((m.memory.drop n).take (k - n))
  | .requestStack, a => ∃ sp : ℕ, m.regs.sp = (sp : Number) ∧ a = .bytes (m.memory.drop sp)
  | _, _ => False

/-- **The answer of a sound machine** shows what the machine has.

**Proof sketch.** One case for each query. A sound machine tells its registers, which read back from
their text; its answer for a range has the bytes of memory there, and that for the stack the bytes
from the pointer on. -/
theorem Engine.shows_of_answer? {e : Engine} {c : Command} (hm : e.machine.Sound) (hc : c.Encodes)
    {ev : Event} (h : e.answer? c = some ev) {q : Query} (hq : c.query? = some q) {a : Answer}
    (ha : q.wanted.part ev = .ok a) : e.machine.Shows c a := by
  unfold answer? at h
  split_ifs at h
  cases c with
  | requestDump =>
    obtain rfl := Option.some.inj hq
    obtain ⟨regs, hr, rfl⟩ := Option.map_eq_some_iff.1 h
    rw [hm.plain.registers_eq] at hr
    obtain rfl := Option.some.inj hr
    rw [Query.wanted, Wanted.part, Snapshot.parse_serialize hm.regs] at ha
    exact (Except.ok.inj ha).symm
  | requestMemory first limit =>
    obtain rfl := Option.some.inj hq
    obtain ⟨bytes, hr, rfl⟩ := Option.map_eq_some_iff.1 h
    obtain ⟨n, k, -, hk, rfl, rfl⟩ := Command.exists_natCast_of_requestMemory hc
    obtain ⟨hnk, hsize, rfl⟩ :=
      hm.plain.of_readRange (by simp only [Number.exactLimit]; omega) (eq_ok_of_toOption hr)
    exact ⟨n, k, rfl, rfl, hnk, hsize, (Except.ok.inj ha).symm⟩
  | requestStack =>
    obtain rfl := Option.some.inj hq
    obtain ⟨bytes, hr, rfl⟩ := Option.map_eq_some_iff.1 h
    obtain ⟨sp, hsp, rfl⟩ := hm.of_readStack (eq_ok_of_toOption hr)
    exact ⟨sp, hsp, (Except.ok.inj ha).symm⟩
  | _ => cases hq

/-! ## Searches -/

section

variable {α β : Type} {f : α → Option β}

/-- The `n`-th result of a search is found at one place, behind `n` other results.

**Proof sketch.** Induction on the list. A member with a result is the place for `n = 0`, and leaves
`n - 1` to find otherwise; one without a result is passed over. -/
lemma exists_of_getElem?_filterMap {l : List α} {n : ℕ} {b : β} (h : (l.filterMap f)[n]? = some b) :
    ∃ i a, l[i]? = some a ∧ f a = some b ∧ ((l.take i).filterMap f).length = n := by
  induction l generalizing n with
  | nil => cases h
  | cons a l ih =>
    have hlater : ∀ {m}, (l.filterMap f)[m]? = some b →
        (((a :: l).take 1).filterMap f).length + m = n →
        ∃ i a', (a :: l)[i]? = some a' ∧ f a' = some b ∧
          (((a :: l).take i).filterMap f).length = n := by
      intro m hm hn
      obtain ⟨i, a', hi, ha', hlen⟩ := ih hm
      refine ⟨i + 1, a', hi, ha', ?_⟩
      rw [List.take_succ_cons, ← List.singleton_append, List.filterMap_append,
        List.length_append, hlen]
      exact hn
    cases ha : f a with
    | none =>
      rw [List.filterMap_cons_none ha] at h
      exact hlater h (by simp [ha])
    | some b' =>
      rw [List.filterMap_cons_some ha] at h
      cases n with
      | zero => exact ⟨0, a, rfl, ha.trans h, rfl⟩
      | succ n => exact hlater h (by simp [ha, Nat.add_comm])

/-- There is one such place.

**Proof sketch.** The number of results in front of a place grows at each place that has one, so it
tells two such places apart. -/
lemma eq_of_length_filterMap_take {l : List α} {i j : ℕ} {a b : α} (hi : l[i]? = some a)
    (hj : l[j]? = some b) (ha : (f a).isSome = true) (hb : (f b).isSome = true)
    (h : ((l.take i).filterMap f).length = ((l.take j).filterMap f).length) : i = j := by
  -- Behind a place with a result there is one result more.
  have hlt : ∀ {i j : ℕ} {a : α}, l[i]? = some a → (f a).isSome = true → i < j →
      ((l.take i).filterMap f).length < ((l.take j).filterMap f).length := by
    intro i j a hi ha hij
    obtain ⟨b, hb⟩ := Option.isSome_iff_exists.1 ha
    have hstep : ((l.take (i + 1)).filterMap f).length = ((l.take i).filterMap f).length + 1 := by
      rw [List.take_add_one, hi, List.filterMap_append, List.length_append]
      simp [hb]
    have hmono : ((l.take (i + 1)).filterMap f).length ≤ ((l.take j).filterMap f).length :=
      ((List.take_prefix_take_left hij).filterMap f).length_le
    omega
  rcases Nat.lt_trichotomy i j with hij | hij | hij
  · exact absurd h (Nat.ne_of_lt (hlt hi ha hij))
  · exact hij
  · exact absurd h.symm (Nat.ne_of_lt (hlt hj hb hij))

end

/-! ## Commands one by one -/

namespace Engine

variable {e : Engine} {q : Query}

/-- The engine after commands, one by one. -/
def after (e : Engine) (cs : List Command) : Engine := (e.run (cs.map .command)).1

/-- The moments at which commands are handled: each with the engine that handles it. -/
def moments (e : Engine) : List Command → List (Engine × Command)
  | [] => []
  | c :: cs => (e, c) :: moments (e.handle c).1 cs

/-- The events that answer commands, in order. -/
def answers (e : Engine) (cs : List Command) : List Event := (e.moments cs).filterMap fun m =>
    m.1.answer? m.2

/-- What an engine *computes* for the command in place `i`, if that makes the query: the wanted part
of the event that answers it. If its machine was sound at the start, that is what the machine has
when the command is handled, at the addresses for which the command asks. -/
def Computes (e : Engine) (cs : List Command) (i : ℕ) (q : Query) (a : Answer) : Prop :=
  ∃ m ev, (e.moments cs)[i]? = some m ∧ m.2.query? = some q ∧ m.1.answer? m.2 = some ev ∧
    q.wanted.part ev = .ok a ∧ (e.machine.Sound → m.1.machine.Shows m.2 a)

/-- The engine after a command and others is that after the others, from what the first has left. -/
lemma after_cons (e : Engine) (c : Command) (cs : List Command) :
    e.after (c :: cs) = (e.handle c).1.after cs := rfl

/-- The engine after commands and others is that after the others, from what the first have left. -/
lemma after_append (e : Engine) (cs ds : List Command) :
    e.after (cs ++ ds) = (e.after cs).after ds := by
  rw [after, List.map_append, run_append]
  rfl

/-- The moments of commands and others are those of the first, and those of the others from where
the first have led. -/
lemma moments_append (e : Engine) (cs ds : List Command) :
    e.moments (cs ++ ds) = e.moments cs ++ (e.after cs).moments ds := by
  induction cs generalizing e with
  | nil => rfl
  | cons c cs ih => exact congrArg ((e, c) :: ·) (ih (e.handle c).1)

/-- The answers to commands and others are those to the first, and those to the others from where
the first have led. -/
lemma answers_append (e : Engine) (cs ds : List Command) :
    e.answers (cs ++ ds) = e.answers cs ++ (e.after cs).answers ds := by
  rw [answers, moments_append, List.filterMap_append]
  rfl

/-- The answers to one command are none or one. -/
lemma answers_singleton (e : Engine) (c : Command) : e.answers [c] = (e.answer? c).toList := by
  rw [answers, moments, moments, List.filterMap_cons]
  cases e.answer? c <;> rfl

/-- Each moment is that of the command in its place. -/
lemma map_snd_moments (e : Engine) (cs : List Command) : (e.moments cs).map Prod.snd = cs := by
  induction cs generalizing e with
  | nil => rfl
  | cons c cs ih => exact congrArg (c :: ·) (ih (e.handle c).1)

/-- The moments of the first commands are the first moments. -/
lemma moments_take (e : Engine) (cs : List Command) (i : ℕ) :
    e.moments (cs.take i) = (e.moments cs).take i := by
  induction cs generalizing e i with
  | nil => rw [List.take_nil, moments, List.take_nil]
  | cons c cs ih =>
    cases i with
    | zero => rfl
    | succ i => exact congrArg ((e, c) :: ·) (ih (e.handle c).1 i)

/-- Commands that can be written leave a machine sound at each of their moments.

**Proof sketch.** Induction on the commands: one that can be written makes calls of the machine that
keep it sound. -/
lemma sound_of_mem_moments {cs : List Command} (he : e.machine.Sound) (hcs : ∀ c ∈ cs, c.Encodes) :
    ∀ m ∈ e.moments cs, m.1.machine.Sound := by
  induction cs generalizing e with
  | nil => exact fun _ hm => absurd hm List.not_mem_nil
  | cons c cs ih =>
    intro m hm
    rcases List.mem_cons.1 hm with rfl | hm
    · exact he
    · obtain ⟨n, hcalls⟩ := calls_handle e c
      exact ih (hcalls.sound (hcs c List.mem_cons_self) he) (fun d hd =>
        hcs d (List.mem_cons_of_mem c hd)) m hm

/-! ### Commands of one kind -/

/-- The events that answer the commands that make one query, in order. -/
def answersTo (q : Query) (e : Engine) (cs : List Command) : List Event :=
  (e.answers cs).filter fun ev => ev.query? = some q

/-- The answers to one query among commands and others. -/
lemma answersTo_append (q : Query) (e : Engine) (cs ds : List Command) :
    answersTo q e (cs ++ ds) = answersTo q e cs ++ answersTo q (e.after cs) ds := by
  rw [answersTo, answers_append, List.filter_append]
  rfl

/-- The answers to one query are found moment by moment. -/
lemma answersTo_eq (q : Query) (e : Engine) (cs : List Command) :
    answersTo q e cs = (e.moments cs).filterMap
      fun m => (m.1.answer? m.2).filter fun ev => ev.query? = some q := by
  rw [answersTo, answers, List.filter_filterMap]

/-- **An answer to a query** was computed for one command that makes it. As many others were
answered before as answers stand in front of it.

**Proof sketch.** The answers are what filtering the moments leaves. The entry with number `n` comes
of a moment, whose command makes the query, and as many entries come of the moments before it. -/
theorem exists_computes_of_answersTo {cs : List Command} (hcs : ∀ c ∈ cs, c.Encodes) {n : ℕ}
    {ev : Event}
    (h : (answersTo q e cs)[n]? = some ev) {a : Answer} (ha : q.wanted.part ev = .ok a) :
    ∃ i, e.Computes cs i q a ∧ (answersTo q e (cs.take i)).length = n := by
  rw [answersTo_eq] at h
  obtain ⟨i, m, hi, hm, hlen⟩ := exists_of_getElem?_filterMap h
  obtain ⟨hev, hevq⟩ := Option.filter_eq_some_iff.1 hm
  have hq : m.2.query? = some q := (query?_of_answer? hev).symm.trans (of_decide_eq_true hevq)
  have hmem : m ∈ e.moments cs := List.mem_of_getElem? hi
  have hc : m.2 ∈ cs := by
    rw [← map_snd_moments e cs]
    exact List.mem_map_of_mem hmem
  refine ⟨i, ⟨m, ev, hi, hq, hev, ha, fun hm => ?_⟩, ?_⟩
  · exact shows_of_answer? (sound_of_mem_moments hm hcs m hmem) (hcs m.2 hc) hev hq ha
  · rw [answersTo_eq, moments_take, hlen]

/-- **One command** that makes a query has a given number of answered ones before it and is answered
itself.

**Proof sketch.** Both moments are found when the answers are filtered, and as many were found
before the one as before the other. Two such places are the same by `eq_of_length_filterMap_take`.
-/
theorem Computes.unique {cs : List Command} {i j : ℕ} {a b : Answer} (hi : e.Computes cs i q a)
    (hj : e.Computes cs j q b)
    (h : (answersTo q e (cs.take i)).length = (answersTo q e (cs.take j)).length) : i = j := by
  obtain ⟨m, ev, hm, hq, hev, -, -⟩ := hi
  obtain ⟨m', ev', hm', hq', hev', -, -⟩ := hj
  have hfound : ∀ {m : Engine × Command} {ev : Event},
      m.1.answer? m.2 = some ev → m.2.query? = some q →
      ((m.1.answer? m.2).filter fun ev => ev.query? = some q).isSome = true := by
    intro m ev hev hq
    rw [hev, Option.filter_some, if_pos (decide_eq_true ((query?_of_answer? hev).trans hq))]
    rfl
  rw [answersTo_eq, answersTo_eq, moments_take, moments_take] at h
  exact eq_of_length_filterMap_take hm hm' (hfound hev hq) (hfound hev' hq') h

end Engine

end DebugWire
