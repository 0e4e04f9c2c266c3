import DebugWire.Proofs.Engine.Faults
import DebugWire.Proofs.Engine.Stepping
import DebugWire.Proofs.Machine.Ranges

set_option relaxedAutoImplicit false
set_option autoImplicit false

/-!
# Commands that are refused

Before an engine touches its machine, it checks the numbers that a command gives, and whether the
command is allowed as the session stands. On a machine without overrides there is no other reason
for a command to fail, save one: the memory buffer itself has no room for bytes that are written at
no number at all. A command that is refused is answered with one message, and everything else stays
as it was.

## Main definitions

* `DebugWire.Engine.Refuses` — the reasons to refuse a command.

## Main results

* `DebugWire.Engine.Refuses.apply_eq`, `DebugWire.Engine.refuses_of_fault` — a command fails for
  these reasons and no others.
* `DebugWire.Engine.handle_of_refuses` — what becomes of a command that is refused.
* `DebugWire.Engine.refuses_run_start_iff` — commands in a session.
-/

namespace DebugWire

/-- An instruction that fails raises a fault that has no kind of its own. -/
lemma Machine.kind_of_execute {m : Machine} {f : Fault} (h : m.execute.result = .error f) :
    f.kind = .general := by
  unfold Machine.execute at h
  dsimp only at h
  split at h
  case h_1 op _ =>
    cases op <;> cases h
    rfl
  case h_2 => cases h

namespace Engine

variable {e : Engine} {c : Command} {f : Fault}

/-! ## Reasons -/

/-- The reasons for which an engine on a plain machine *refuses* a command, each with its fault. -/
inductive Refuses (e : Engine) : Command → Fault → Prop
  /-- A step of either kind, while the program waits for input. -/
  | step {c : Command} {kind : InputKind} (hc : c.isStep = true) (hs : e.state = .suspended kind) :
    Refuses e c (.stepWhileWaiting kind)
  /-- Input that is not asked for: it is of the other kind, or none is. -/
  | input {c : Command} {i : Input} (hc : c.input? = some i) (hp : e.relay.pending ≠ some i.kind) :
    Refuses e c (.unexpectedInput i.kind e.relay.pending)
  /-- A range of memory that ends before it begins. -/
  | inverted {first limit : Number} (h : limit.lt first = true) :
    Refuses e (.requestMemory first limit) (.invertedRange first limit)
  /-- A range that is not inside of memory. -/
  | memory {first limit : Number} (hle : limit.lt first =
      false) (h : ¬ e.machine.Holds first (limit - first)) :
    Refuses e (.requestMemory first limit) (.outOfRange first (limit - first) e.machine.size)
  /-- A stack that is not empty and not inside of memory. -/
  | stack (hlt : Number.le e.machine.size e.machine.regs.sp = false)
    (h : ¬ e.machine.Holds e.machine.regs.sp (e.machine.size - e.machine.regs.sp)) :
    Refuses e .requestStack
      (.outOfRange e.machine.regs.sp (e.machine.size - e.machine.regs.sp) e.machine.size)
  /-- Bytes to write that are not inside of memory. -/
  | write {address : Number} {bytes : Bytes}
      (h : ¬ e.machine.Holds address (bytes.length : Number)) :
    Refuses e (.setMemory address bytes)
      (.outOfRange address (bytes.length : Number) e.machine.size)
  /-- Bytes that pass the check and yet have no room. The check lets an address through that is no
  number at all, and the memory buffer takes it for that of its first byte. -/
  | room {address : Number} {bytes : Bytes} (hin : e.machine.Holds address (bytes.length : Number))
    (h : ¬ e.machine.HasRoom address bytes.length) :
    Refuses e (.setMemory address bytes) .bufferBounds
  /-- A register that there is not. -/
  | register {name : String} {value : Number} (h : Register.ofName? name = none) :
    Refuses e (.setRegister name value) (.unknownRegister name)
  /-- A value that does not fit its register. -/
  | value {name : String} {r : Register} {value : Number} (hr : Register.ofName? name = some r)
    (h : value.isWithin r.limit = false) :
      Refuses e (.setRegister name value) (.registerValue value r)
  /-- A breakpoint to set at a number that is no 16-bit address. -/
  | setBreakpoint {address : Number} (h : address.within? 0xffff = none) :
    Refuses e (.setBreakpoint address) (.notBreakpoint address)
  /-- A breakpoint to clear at such a number. -/
  | clearBreakpoint {address : Number} (h : address.within? 0xffff = none) :
    Refuses e (.clearBreakpoint address) (.notBreakpoint address)

/-- No command is refused for a crash, so a refusal never ends the session. -/
lemma Refuses.kind_ne_crash (h : e.Refuses c f) : f.kind ≠ .crash := by
  cases h <;> exact nofun

/-! ## Work that is refused -/

/-- A call that fails, has printed nothing and leaves the machine as it is, is work that is refused.
-/
lemma took_fault {α : Type} (e : Engine) (f : Fault) (next : Engine → α → Work) :
    e.took (.fault e.machine f) next = e.refuse f := by
  simp only [took, Machine.Call.fault, relayed, Relay.events, List.filter_nil, List.map_nil,
    ite_self, refuse]

/-- **For each of the reasons** a command comes to its fault, and to nothing else.

**Proof sketch.** One case for each reason: the check that it names fails, and the fault of that
check is what the call comes to. -/
theorem Refuses.apply_eq (hm : e.machine.Plain) (h : e.Refuses c f) : e.apply c = e.refuse f := by
  cases h with
  | step hc hs =>
    cases c with
    | step | stepIgnoringBreakpoints => exact stepOnce_of_suspended hs _
    | _ => cases hc
  | @input _ i hc hp =>
    cases c with
    | inputKey key | inputString text =>
      obtain rfl := Option.some.inj hc
      exact input_of_pending_ne hp
    | _ => cases hc
  | inverted h => rw [apply, hm.readRange_eq_ite, if_pos h, took_fault]
  | memory hle h =>
    rw [apply, hm.readRange_eq_ite, hle, if_neg Bool.false_ne_true, if_neg h, took_fault]
  | stack hlt h =>
    rw [apply, hm.readStack_eq_ite, hlt, if_neg Bool.false_ne_true, if_neg h, took_fault]
  | write h => rw [apply, Machine.writeAt, Machine.checked_checkRange, if_neg h, took_fault]
  | room hin h =>
    rw [apply, Machine.writeAt, Machine.checked_checkRange, if_pos hin, hm.write_of_not_hasRoom h,
      took_fault]
  | register h => rw [apply, Machine.writeRegister, h, took_fault]
  | value hr h =>
    rw [apply, Machine.writeRegister, hr]
    dsimp only
    rw [h, if_neg Bool.false_ne_true, took_fault]
  | setBreakpoint h => rw [apply, Breakpoints.set, Breakpoints.address_eq_error h]; rfl
  | clearBreakpoint h => rw [apply, Breakpoints.clear, Breakpoints.address_eq_error h]; rfl

/-- Running an instruction of a plain machine never fails as a command. -/
lemma fault_running_execute (e : Engine) : (e.running e.machine.execute).fault = none := by
  refine Option.eq_none_iff_forall_ne_some.2 fun f hf => ?_
  have hr := running_eq_fault hf
  have hcrash := (running_of_error (e := e) (Machine.Call.eq_of_result hr)).2
    (by rw [Machine.kind_of_execute hr]; exact nofun)
  rw [hcrash.fault] at hf
  cases hf

/-- A step fails only while the program waits for input.

**Proof sketch.** An idle engine over a plain machine steps without a fault. One that waits for
input refuses with the only fault that there is. -/
lemma refuses_of_stepOnce (hm : e.machine.Plain) (he : e.terminated = false)
    {checkBreakpoints : Bool}
    (hc : c.isStep = true) (h : (e.stepOnce checkBreakpoints).fault = some f) : e.Refuses c f := by
  rcases idle_or_suspended he with hs | ⟨kind, hs⟩
  · rw [stepOnce_of_idle hm hs] at h
    split_ifs at h
    · cases h
    · rw [fault_running_execute] at h
      cases h
  · rw [stepOnce_of_suspended hs] at h
    obtain rfl := Option.some.inj h
    exact .step hc hs

/-- Input fails only where it is not asked for.

**Proof sketch.** Input of the kind that is asked for is taken by a plain machine. All other input
is refused. -/
lemma refuses_of_input (hm : e.machine.Plain) {i : Input} (hc : c.input? = some i)
    (h : (e.input i).fault = some f) : e.Refuses c f := by
  by_cases hp : e.relay.pending = some i.kind
  · rw [input_of_pending_eq hp] at h
    have hr := running_eq_fault h
    cases i with
    | key key => rw [Input.deliver, hm.supplyKey_eq] at hr; cases hr
    | string text => rw [Input.deliver, hm.supplyString_eq] at hr; cases hr
  · rw [input_of_pending_ne hp] at h
    obtain rfl := Option.some.inj h
    exact .input hc hp

/-- Changing the breakpoints fails only for a number that is no 16-bit address.

**Proof sketch.** The fault is that of turning the number into an address, which fails only outside
of sixteen bits. -/
lemma of_withBreakpoints_eq_fault {change : { a : Nat // a ≤ 0xffff } → Breakpoints} {x : Number}
    (h : (e.withBreakpoints ((Breakpoints.address x).map change)).fault = some f) :
    x.within? 0xffff = none ∧ f = .notBreakpoint x := by
  have hr := withBreakpoints_eq_fault h
  cases hx : x.within? 0xffff with
  | none =>
    rw [Breakpoints.address_eq_error hx] at hr
    exact ⟨rfl, (Except.error.inj hr).symm⟩
  | some n =>
    cases ha : Breakpoints.address x with
    | ok a => rw [ha] at hr; cases hr
    | error f' =>
      rw [Breakpoints.within?_of_address_eq_error ha] at hx
      cases hx

/-- Reading memory fails only for its range.

**Proof sketch.** A plain machine reads exactly the ranges that are not inverted and lie inside of
its memory, and each of the other cases has its own fault. -/
lemma refuses_of_requestMemory (hm : e.machine.Plain) {first limit : Number}
    (h : (e.apply (.requestMemory first limit)).fault = some f) :
    e.Refuses (.requestMemory first limit) f := by
  rw [apply, hm.readRange_eq_ite] at h
  split_ifs at h with hlt hin
  · rw [took_fault] at h
    obtain rfl := Option.some.inj h
    exact .inverted hlt
  · rw [took_done] at h
    cases h
  · rw [took_fault] at h
    obtain rfl := Option.some.inj h
    exact .memory (Bool.eq_false_iff.2 hlt) hin

/-- Reading the stack fails only for its place.

**Proof sketch.** A plain machine reads its stack from the stack pointer on, which is fine where it
points inside of memory or behind it; before memory it is a fault. -/
lemma refuses_of_requestStack (hm : e.machine.Plain) (h : (e.apply .requestStack).fault = some f) :
    e.Refuses .requestStack f := by
  rw [apply, hm.readStack_eq_ite] at h
  split_ifs at h with hle hin
  · rw [took_done] at h
    cases h
  · rw [took_done] at h
    cases h
  · rw [took_fault] at h
    obtain rfl := Option.some.inj h
    exact .stack (Bool.eq_false_iff.2 hle) hin

/-- Writing memory fails only for the range, or for want of room.

**Proof sketch.** The range is checked first. If that passes, a plain machine writes the bytes
unless it has no room for them. -/
lemma refuses_of_setMemory (hm : e.machine.Plain) {address : Number} {bytes : Bytes}
    (h : (e.apply (.setMemory address bytes)).fault = some f) :
    e.Refuses (.setMemory address bytes) f := by
  rw [apply, Machine.writeAt, Machine.checked_checkRange] at h
  split_ifs at h with hin
  · by_cases hroom : e.machine.HasRoom address bytes.length
    · obtain ⟨n, hn, h0, hfit⟩ := hroom
      rw [hm.write_of_truncate hn h0 hfit] at h
      cases h
    · rw [hm.write_of_not_hasRoom hroom, took_fault] at h
      obtain rfl := Option.some.inj h
      exact .room hin hroom
  · rw [took_fault] at h
    obtain rfl := Option.some.inj h
    exact .write hin

/-- Writing a register fails only for its name or its value.

**Proof sketch.** The name is looked up first, and the value checked then; a plain machine sets
whatever passes. -/
lemma refuses_of_setRegister (hm : e.machine.Plain) {name : String} {value : Number}
    (h : (e.apply (.setRegister name value)).fault = some f) :
    e.Refuses (.setRegister name value) f := by
  rw [apply, Machine.writeRegister] at h
  cases hr : Register.ofName? name with
  | none =>
    rw [hr, took_fault] at h
    obtain rfl := Option.some.inj h
    exact .register hr
  | some r =>
    rw [hr] at h
    dsimp only at h
    split_ifs at h with hv
    · rw [hm.setRegister_eq] at h
      cases h
    · rw [took_fault] at h
      obtain rfl := Option.some.inj h
      exact .value hr (Bool.eq_false_iff.2 hv)

/-- **There are no other reasons** for a command to fail on a plain machine.

**Proof sketch.** One case for each command, by the lemma about what it calls. A plain machine tells
its registers and stops without a fault. -/
theorem refuses_of_fault (hm : e.machine.Plain) (he : e.terminated = false)
    (h : (e.apply c).fault = some f) :
    e.Refuses c f := by
  cases c with
  | step => exact refuses_of_stepOnce hm he rfl h
  | stepIgnoringBreakpoints => exact refuses_of_stepOnce hm he rfl h
  | stop => cases h
  | setBreakpoint address =>
    obtain ⟨hx, rfl⟩ := of_withBreakpoints_eq_fault h
    exact .setBreakpoint hx
  | clearBreakpoint address =>
    obtain ⟨hx, rfl⟩ := of_withBreakpoints_eq_fault h
    exact .clearBreakpoint hx
  | requestDump =>
    rw [apply, hm.registers_eq, took_done] at h
    cases h
  | requestMemory first limit => exact refuses_of_requestMemory hm h
  | requestStack => exact refuses_of_requestStack hm h
  | setMemory address bytes => exact refuses_of_setMemory hm h
  | setRegister name value => exact refuses_of_setRegister hm h
  | inputKey key => exact refuses_of_input hm rfl h
  | inputString text => exact refuses_of_input hm rfl h

/-! ## What becomes of a command that is refused -/

/-- **A command that is refused** is answered with one message, and leaves the engine as it is. -/
theorem handle_of_refuses (hm : e.machine.Plain) (he : e.terminated = false) (h : e.Refuses c f) :
    (e.handle c).1 = e ∧ Emission.events (e.handle c).2 = [.errorOutput f.message] :=
  handle_of_apply_eq_refuse he (h.apply_eq hm) h.kind_ne_crash

/-- The machine of a session stays plain, as no happening puts another script into it. -/
lemma plain_run {e : Engine} (hm : e.machine.Plain) (xs : List Happening) :
    (e.run xs).1.machine.Plain := by
  induction xs generalizing e with
  | nil => exact hm
  | cons x xs ih =>
    refine ih ?_
    cases x with
    | command c => exact (steps_handle hm c).1
    | report message | printed p => exact hm

/-- **A command that is refused changes nothing**: in any session on a plain machine that has not
come to its end, a command fails exactly for the reasons listed, and then it is answered with one
message, that of its fault. The engine is afterwards what it was: its state, the open request, the
breakpoints and the whole machine.

**Proof sketch.** By `Refuses.apply_eq` each reason brings the work to its fault before anything
else is done. A fault that is no crash of the machine is told of and leaves the engine of the work,
which is the one that the command has met. There are no other reasons by `refuses_of_fault`, since
the machine of the session is plain throughout. -/
theorem refuses_run_start_iff (m : Machine) (hm : m.Plain) (logCommands : Bool)
    (xs : List Happening) {e : Engine} (he : ((start m logCommands).run xs).1 = e)
    (ht : e.terminated = false) (c : Command) (f : Fault) :
    ((e.apply c).fault = some f ↔ e.Refuses c f) ∧
      (e.Refuses c f → Emission.events (e.handle c).2 = [.errorOutput f.message] ∧
        (e.handle c).1 = e) := by
  have hplain : e.machine.Plain := he ▸ plain_run (e := start m logCommands) hm xs
  refine ⟨⟨refuses_of_fault hplain ht, fun h => ?_⟩, fun h => (handle_of_refuses hplain ht h).symm⟩
  rw [h.apply_eq hplain]
  rfl

/-- A program that waits for a key is told to step, is given a string, and is asked for memory that
it does not have. -/
theorem refuses_run_start_of_waiting :
    ∃ e, ((start (.initial [(0, .readKey)] 4 {}) false).run
        [.command (.setBreakpoint 7), .command .step]).1 = e ∧ e.state = .suspended .key ∧
      (Emission.events (e.handle .step).2 =
        [.errorOutput "Step refused: the program is waiting for key input"] ∧
        (e.handle .step).1 = e) ∧
      (Emission.events (e.handle (.inputString "a")).2 =
          [.errorOutput "Unexpected string input: the program is waiting for a key"] ∧
        (e.handle (.inputString "a")).1 = e) ∧
      (Emission.events (e.handle (.requestMemory 2 9)).2 =
        [.errorOutput (Fault.outOfRange 2 7 4).message] ∧
        (e.handle (.requestMemory 2 9)).1 = e) := by
  have hrun := refuses_run_start_iff (.initial [(0, .readKey)] 4 {}) rfl false
    [.command (.setBreakpoint 7), .command .step] rfl rfl
  refine ⟨_, rfl, rfl, ?_, ?_, ?_⟩
  · exact (hrun .step (.stepWhileWaiting .key)).2 (.step rfl rfl)
  · exact (hrun (.inputString "a") (.unexpectedInput .string (some .key))).2
      (.input (i := .string "a") rfl (by decide))
  · exact (hrun (.requestMemory 2 9) (.outOfRange 2 7 4)).2 (.memory rfl (by decide))

end Engine

end DebugWire
