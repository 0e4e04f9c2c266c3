import DebugWire.Proofs.Engine.Queries
import DebugWire.Proofs.Engine.Refusing

set_option relaxedAutoImplicit false
set_option autoImplicit false

/-!
# Queries change nothing

On a machine without overrides, a query leaves the engine as it is, whether it is answered or
refused. If the queries are taken out of a list of commands, all other commands are therefore
handled by the same engines as before, one for one, and let out what they let out before.

## Main definitions

* `DebugWire.Engine.unasked` — commands with the queries taken out.
* `DebugWire.Engine.reply` — what is let out at a moment.

## Main results

* `DebugWire.Engine.handle_query` — one query.
* `DebugWire.Engine.moments_unasked` — the moments of the other commands.
* `DebugWire.Engine.queries_observe` — commands with their queries and without.
-/

namespace DebugWire.Engine

variable {e : Engine} {c : Command}

/-- Commands with the queries taken out. -/
def unasked (cs : List Command) : List Command := cs.filter fun c => c.query?.isNone

/-- The events that are let out at a moment. -/
def reply (m : Engine × Command) : List Event := Emission.events (m.1.handle m.2).2

/-! ## One query -/

/-- A query of a plain machine comes to one event that answers a query, or to one fault.

**Proof sketch.** A plain machine answers each of the three queries, unless the range or the bounds
of the stack are refused. -/
lemma apply_query (hm : e.machine.Plain) (hq : c.query?.isSome = true) :
    (∃ f, e.apply c = e.refuse f) ∨ ∃ ev : Event, ev.query?.isSome = true ∧
      e.apply c = e.answer ev := by
  cases c with
  | requestDump => exact .inr ⟨_, rfl, by rw [apply, hm.registers_eq, took_done]⟩
  | requestMemory first limit =>
    rw [apply, hm.readRange_eq_ite]
    split_ifs
    · exact .inl ⟨_, took_fault _ _ _⟩
    · exact .inr ⟨_, rfl, took_done _ _ _⟩
    · exact .inl ⟨_, took_fault _ _ _⟩
  | requestStack =>
    rw [apply, hm.readStack_eq_ite]
    split_ifs
    · exact .inr ⟨_, rfl, took_done _ _ _⟩
    · exact .inr ⟨_, rfl, took_done _ _ _⟩
    · exact .inl ⟨_, took_fault _ _ _⟩
  | _ => cases hq

/-- The one event that a query comes to is the event that answers it.

**Proof sketch.** Of what the command lets out, this one event answers a query. The answers of a
command are that of `answer?`, by `answers_apply`. -/
lemma answer?_of_apply_eq_answer {ev : Event} (he : e.terminated = false)
    (hq : ev.query?.isSome = true) (ha : e.apply c = e.answer ev) : e.answer? c = some ev := by
  have hone : Emission.answers (e.apply c).trace = [ev] := by
    rw [ha]
    exact List.filter_cons_of_pos hq
  rw [answers_apply he] at hone
  cases hc : e.answer? c with
  | none =>
    rw [hc] at hone
    cases hone
  | some ev' =>
    rw [hc] at hone
    rw [(List.cons.inj hone).1]

/-- **One query** of a live engine on a plain machine is answered with its result, or with one
message if it is refused. -/
theorem handle_query (hm : e.machine.Plain) (he : e.terminated = false)
    (hq : c.query?.isSome = true) :
    (e.handle c).1 = e ∧
      (∀ f, e.Refuses c f → reply (e, c) = [.errorOutput f.message]) ∧
      ((∀ f, ¬ e.Refuses c f) → ∃ ev, e.answer? c = some ev ∧ reply (e, c) = [ev]) := by
  have hrefuses : ∀ f, e.Refuses c f → reply (e, c) = [.errorOutput f.message] :=
    fun f h => (handle_of_refuses hm he h).2
  rcases apply_query hm hq with ⟨f, hf⟩ | ⟨ev, hev, ha⟩
  · have h : e.Refuses c f := refuses_of_fault hm he (by rw [hf]; rfl)
    exact ⟨(handle_of_refuses hm he h).1, hrefuses, fun hn => absurd h (hn f)⟩
  · obtain ⟨hengine, hevents⟩ := handle_of_apply_eq_answer he ha
    exact ⟨hengine, hrefuses, fun _ => ⟨ev, answer?_of_apply_eq_answer he hev ha, hevents⟩⟩

/-- A query leaves the engine as it is, be it live or not. -/
lemma engine_handle_query (hm : e.machine.Plain) (hq : c.query?.isSome = true) :
    (e.handle c).1 = e := by
  cases he : e.terminated with
  | true => exact happen_of_terminated he (.command c)
  | false => exact (handle_query hm he hq).1

/-! ## Commands with and without queries -/

/-- A query is taken out of the commands, wherever it stands. -/
lemma unasked_cons_query (h : c.query?.isSome = true) (cs : List Command) :
    unasked (c :: cs) = unasked cs :=
  List.filter_cons_of_neg <| by
    rw [Option.isNone_iff_eq_none, ← Option.not_isSome_iff_eq_none, h]
    exact nofun

/-- Any other command is left in, and keeps its place. -/
lemma unasked_cons_of_none (h : c.query? = none) (cs : List Command) :
    unasked (c :: cs) = c :: unasked cs :=
  List.filter_cons_of_pos (by rw [h]; rfl)

/-- **The moments of the commands that are no queries** are the same with the queries and without:
the same engines handle them.

**Proof sketch.** Induction on the commands. A query leaves the engine as it is, so the moments
behind it are those without it. -/
theorem moments_unasked (hm : e.machine.Plain) (cs : List Command) :
    e.moments (unasked cs) = (e.moments cs).filter fun m => m.2.query?.isNone := by
  induction cs generalizing e with
  | nil => rfl
  | cons c cs ih =>
    rw [moments, List.filter_cons]
    cases hq : c.query? with
    | none =>
      rw [unasked_cons_of_none hq, moments, ih (steps_handle hm c).1]
      rfl
    | some q =>
      have hsome : c.query?.isSome = true := by rw [hq]; rfl
      rw [unasked_cons_query hsome, engine_handle_query hm hsome, ih hm]
      rfl

/-- The engine after commands is the same with the queries and without.

**Proof sketch.** Induction on the commands. A query leaves the engine of a plain machine as it is,
so the rest begins with the same engine. -/
lemma after_unasked (hm : e.machine.Plain) (cs : List Command) :
    e.after (unasked cs) = e.after cs := by
  induction cs generalizing e with
  | nil => rfl
  | cons c cs ih =>
    rw [after_cons]
    cases hq : c.query? with
    | none => rw [unasked_cons_of_none hq, after_cons, ih (steps_handle hm c).1]
    | some q =>
      have hsome : c.query?.isSome = true := by rw [hq]; rfl
      rw [unasked_cons_query hsome, engine_handle_query hm hsome, ih hm]

/-- Every moment of commands to an engine on a plain machine has one. -/
lemma plain_of_mem_moments (hm : e.machine.Plain) {cs : List Command} {m : Engine × Command}
    (h : m ∈ e.moments cs) : m.1.machine.Plain := by
  induction cs generalizing e with
  | nil => cases h
  | cons c cs ih =>
    rcases List.mem_cons.1 h with rfl | h
    · exact hm
    · exact ih (steps_handle hm c).1 h

/-- The events of a run are those of its moments. -/
lemma events_run_commands (e : Engine) (cs : List Command) :
    Emission.events (e.run (cs.map .command)).2 = (e.moments cs).flatMap reply := by
  induction cs generalizing e with
  | nil => rfl
  | cons c cs ih =>
    rw [List.map_cons, run, Emission.events_append, moments, List.flatMap_cons, ← ih]
    rfl

/-- **Queries only observe**: an engine on a plain machine that is given commands, and the same
engine that is given them without their queries, come to the same end. The first lets out the events
of all its moments, one after the other, and the second those of the moments at which there is no
query. At a moment of a query a live engine lets out one event: the result, or, where the query is
refused, the message of the fault.

**Proof sketch.** By `handle_query` a query leaves the engine as it is, so by induction on the
commands each of the others finds the same engine, with the queries and without. That the engine is
still on a plain machine is carried along. -/
theorem queries_observe (hm : e.machine.Plain) (cs : List Command) :
    e.after (unasked cs) = e.after cs ∧
      Emission.events (e.run (cs.map .command)).2 = (e.moments cs).flatMap reply ∧
      Emission.events (e.run ((unasked cs).map .command)).2 =
        ((e.moments cs).filter fun m => m.2.query?.isNone).flatMap reply ∧
      ∀ m ∈ e.moments cs, m.2.query?.isSome = true → m.1.terminated = false →
        (∀ f, m.1.Refuses m.2 f → reply m = [.errorOutput f.message]) ∧
          ((∀ f, ¬ m.1.Refuses m.2 f) → ∃ ev, m.1.answer? m.2 = some ev ∧ reply m = [ev]) := by
  refine ⟨after_unasked hm cs, events_run_commands e cs, ?_, fun m hmem hq ht => ?_⟩
  · rw [events_run_commands, moments_unasked hm]
  · exact (handle_query (plain_of_mem_moments hm hmem) ht hq).2

/-- A program that waits for a key is asked for its registers, for memory that it does not have, and
for its stack, which is empty. -/
theorem queries_observe_of_readKey :
    ∃ e, start (.initial [(0, .inc), (1, .readKey)] 4 {}) false = e ∧
      e.after [.step, .step, .inputKey "a"] =
        e.after [.requestDump, .step, .requestMemory 2 9, .step, .requestStack, .inputKey "a"] ∧
      reply (e.after [.requestDump, .step], .requestMemory 2 9) =
        [.errorOutput (Fault.outOfRange 2 7 4).message] ∧
      reply (e.after [.requestDump, .step, .requestMemory 2 9, .step], .requestStack) =
        [.stackResult []] := by
  obtain ⟨hafter, -, -, hreply⟩ :=
    queries_observe (e := start (.initial [(0, .inc), (1, .readKey)] 4 {}) false) rfl
    [.requestDump, .step, .requestMemory 2 9, .step, .requestStack, .inputKey "a"]
  refine ⟨_, rfl, hafter, ?_, ?_⟩
  · exact (hreply (_, .requestMemory 2 9) (.tail _ (.tail _ (.head _))) rfl rfl).1 _
      (.memory rfl (by decide))
  · obtain ⟨ev, hev, hone⟩ :=
      (hreply (_, .requestStack) (.tail _ (.tail _ (.tail _ (.tail _ (.head _))))) rfl rfl).2
        fun f h => by
          cases h with
          | stack hlt _ => cases hlt
          | step hc _ | input hc _ => cases hc
    rw [← Option.some.inj hev] at hone
    exact hone

end DebugWire.Engine
