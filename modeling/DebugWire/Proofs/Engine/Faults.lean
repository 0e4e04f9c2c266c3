import DebugWire.Proofs.Engine.Emission
import DebugWire.Proofs.Engine.Suspension
import DebugWire.Proofs.Machine.Calls

set_option relaxedAutoImplicit false
set_option autoImplicit false

/-!
# Faults that a machine raises

Any method of a machine may raise a fault while a command is handled, and may print before it does.
The command is then cut short, and no fault gets out of the engine. What becomes of the session
depends on the method and on the kind of the fault. A fault of a method that runs the program is one
of the program and ends the session, unless it says that the command was not allowed. A fault of any
other method ends the session only if the machine has crashed. All other faults are told of with one
message, and the session stands as it did.

## Main definitions

* `DebugWire.Machine.Method` — the methods of a machine.
* `DebugWire.Machine.Method.IsFatal` — a fault of a method ends the session.
* `DebugWire.Engine.Raises` — a method raises a fault while a command is handled.

## Main results

* `DebugWire.Engine.raises_of_fault` — what cuts a command short is a fault of a method, or a
  refusal.
* `DebugWire.Engine.handle_of_raises` — what becomes of the session.
-/

namespace DebugWire

/-! ## Methods -/

/-- The methods of a machine that a command may call. -/
inductive Machine.Method where
  | registers
  | read
  | write
  | setRegister
  | stackBounds
  | step
  | supplyKey
  | supplyString
  deriving DecidableEq

namespace Machine.Method

/-- Whether a method runs the program. -/
def runs : Method → Bool
  | step | supplyKey | supplyString => true
  | registers | read | write | setRegister | stackBounds => false

/-- A fault that a method raises is *fatal*: it ends the session. -/
def IsFatal (method : Method) (f : Fault) : Prop :=
  if method.runs then f.kind ≠ .violation else f.kind = .crash

instance (method : Method) (f : Fault) : Decidable (method.IsFatal f) :=
  inferInstanceAs (Decidable (if method.runs then f.kind ≠ .violation else f.kind = .crash))

end Machine.Method

/-- The faults with which the engine, or a check of the numbers that are given to a machine, refuses
a command. -/
def Fault.isRefusal : Fault → Bool
  | stepWhileWaiting _ | unexpectedInput .. | notBreakpoint _ | invertedRange .. | outOfRange ..
  | unknownRegister _ | registerValue .. => true
  | _ => false

/-! ## Checked access that fails -/

namespace Machine

variable {m m' m'' : Machine} {f : Fault} {p p' : List Printed}

/-- A check that passes leaves the call to be made. -/
lemma checked_of_ok {α : Type} {check : Except Fault Unit} (h : check = .ok ()) (call : Call α) :
    m.checked check call = call := by
  subst h
  rfl

/-- A range that is checked is read by the machine, so a fault of the read is one of the whole call.
-/
lemma readRange_of_error {first limit : Number} (hle : limit.lt first = false)
    (hin : m.checkRange first (limit - first) = .ok ())
    (h : m.read first (limit - first) = ⟨.error f, p, m'⟩) :
    m.readRange first limit = ⟨.error f, p, m'⟩ := by
  rw [readRange, hle, if_neg Bool.false_ne_true, checked_of_ok hin, h]

/-- A fault of asking where the stack lies is one of reading it. -/
lemma readStack_of_error (h : m.stackBounds = ⟨.error f, p, m'⟩) :
    m.readStack = ⟨.error f, p, m'⟩ := by
  rw [readStack, Call.andThen, h]

/-- A fault of reading the bytes of the stack is one of the whole call, behind what was printed for
its bounds. -/
lemma readStack_of_read_error {bounds : StackBounds} (hs : m.stackBounds = ⟨.ok bounds, p, m'⟩)
    (hlt : bounds.limit.le bounds.first = false)
    (hin : m'.checkRange bounds.first (bounds.limit - bounds.first) = .ok ())
    (h : m'.read bounds.first (bounds.limit - bounds.first) = ⟨.error f, p', m''⟩) :
    m.readStack = ⟨.error f, p ++ p', m''⟩ := by
  rw [readStack, Call.andThen, hs]
  dsimp only
  rw [hlt, if_neg Bool.false_ne_true, checked_of_ok hin, h, Call.after]

/-- A write that is checked is made by the machine, so a fault of the machine is one of the whole
call. -/
lemma writeAt_of_error {address : Number} {bytes : Bytes}
    (hin : m.checkRange address (bytes.length : Number) = .ok ())
    (h : m.write address bytes = ⟨.error f, p, m'⟩) :
    m.writeAt address bytes = ⟨.error f, p, m'⟩ := by
  rw [writeAt, checked_of_ok hin, h]

/-- A value that fits its register is set by the machine, so a fault of the machine is one of the
whole call. -/
lemma writeRegister_of_error {name : String} {r : Register} {value : Number}
    (hr : Register.ofName? name = some r) (hv : value.isWithin r.limit = true)
    (h : m.setRegister r value = ⟨.error f, p, m'⟩) :
    m.writeRegister name value = ⟨.error f, p, m'⟩ := by
  rw [writeRegister, hr]
  dsimp only
  rw [hv, if_pos rfl]
  exact h

/-! Where checked access comes to a fault, either the check refuses or the method fails. -/

/-- A call that fails, in full: its fault, what was printed and the machine that it leaves. -/
lemma Call.eq_of_result {α : Type} {call : Call α} (h : call.result = .error f) :
    call = ⟨.error f, call.printed, call.machine⟩ := by
  rw [← h]

/-- What the check of a range raises is a refusal. -/
lemma isRefusal_of_checkRange {address length : Number}
    (h : m.checkRange address length = .error f) :
    f.isRefusal = true := by
  unfold checkRange at h
  dsimp only at h
  split_ifs at h
  cases h
  rfl

/-- A checked call fails by a refusal, or because the call itself fails behind a check that passes.
-/
lemma checked_eq_error {α : Type} {address length : Number} {call : Call α}
    (h : (m.checked (m.checkRange address length) call).result = .error f) :
    f.isRefusal = true ∨ m.checkRange address length = .ok () ∧ call.result = .error f := by
  cases hc : m.checkRange address length with
  | ok u => exact .inr ⟨rfl, by rwa [hc] at h⟩
  | error f' =>
    rw [hc] at h
    obtain rfl : f' = f := Except.error.inj h
    exact .inl (isRefusal_of_checkRange hc)

/-- Reading a range fails by a refusal, or because the machine fails to read the bytes of one that
is in order. -/
lemma readRange_eq_error {first limit : Number} (h : (m.readRange first limit).result = .error f) :
    f.isRefusal = true ∨ limit.lt first = false ∧ m.checkRange first (limit - first) = .ok () ∧
      (m.read first (limit - first)).result = .error f := by
  unfold readRange at h
  split_ifs at h with hlt
  · cases h
    exact .inl rfl
  · exact (checked_eq_error h).imp_right fun ⟨hin, hf⟩ => ⟨Bool.eq_false_iff.2 hlt, hin, hf⟩

/-- Reading the stack fails by a refusal, or because the machine fails to tell its bounds or to read
its bytes.

**Proof sketch.** The bounds are asked for first. If they are told and the stack is not empty, its
bytes are checked and read as any range. -/
lemma readStack_eq_error (h : m.readStack.result = .error f) :
    f.isRefusal = true ∨ m.stackBounds.result = .error f ∨
      ∃ bounds p m', m.stackBounds = ⟨.ok bounds, p, m'⟩ ∧ bounds.limit.le bounds.first = false ∧
        m'.checkRange bounds.first (bounds.limit - bounds.first) = .ok () ∧
        (m'.read bounds.first (bounds.limit - bounds.first)).result = .error f := by
  unfold readStack Call.andThen at h
  rcases hs : m.stackBounds with ⟨result, p, m'⟩
  rw [hs] at h
  cases result with
  | error f' => exact .inr (.inl (congrArg Except.error (Except.error.inj h)))
  | ok bounds =>
    dsimp only [Call.after] at h
    split_ifs at h with hlt
    · cases h
    · exact (checked_eq_error h).imp_right fun ⟨hin, hf⟩ =>
        .inr ⟨bounds, p, m', rfl, Bool.eq_false_iff.2 hlt, hin, hf⟩

/-- Setting a register fails by a refusal, or because the machine fails to set one that exists to a
value that fits.

**Proof sketch.** A name that no register has and a value that is too large are refused before the
machine is asked. -/
lemma writeRegister_eq_error {name : String} {value : Number}
    (h : (m.writeRegister name value).result = .error f) :
    f.isRefusal = true ∨ ∃ r, Register.ofName? name = some r ∧ value.isWithin r.limit = true ∧
      (m.setRegister r value).result = .error f := by
  unfold writeRegister at h
  cases hr : Register.ofName? name with
  | none =>
    rw [hr] at h
    cases h
    exact .inl rfl
  | some r =>
    rw [hr] at h
    dsimp only at h
    split_ifs at h with hv
    · exact .inr ⟨r, rfl, hv, h⟩
    · cases h
      exact .inl rfl

end Machine

namespace Engine

variable {e : Engine} {c : Command} {method : Machine.Method} {printed : List Printed} {f : Fault}
    {m : Machine}

/-! ## Calls that fail -/

/-- A method *raises* a fault while a live engine handles a command: the command calls the method,
and the call fails. `printed` is all that the calls of the command have printed up to then.

There is a case for each call that a command makes, with what has to hold for the call to be made.
-/
inductive Raises (e : Engine) : Command → Machine.Method → List Printed → Fault → Prop
  /-- A step of either kind looks at the registers. -/
  | stepRegisters {c : Command} {printed : List Printed} {f : Fault} {m : Machine}
    (hc : c.isStep = true) (hs : e.state = .idle)
    (h : e.machine.registers = ⟨.error f, printed, m⟩) :
    Raises e c .registers printed f
  /-- A step executes one instruction, where no breakpoint stops it. -/
  | step {c : Command} {regs : Snapshot} {p p' : List Printed} {f : Fault} {m m' : Machine}
    (hc : c.isStep = true) (hs : e.state = .idle) (hr : e.machine.registers = ⟨.ok regs, p, m⟩)
    (hb : c = .step → e.breakpoints.contains regs.pc = false) (h : m.step = ⟨.error f, p', m'⟩) :
    Raises e c .step (p ++ p') f
  /-- A dump asks for the registers. -/
  | dump {printed : List Printed} {f : Fault} {m : Machine}
    (h : e.machine.registers = ⟨.error f, printed, m⟩) :
    Raises e .requestDump .registers printed f
  /-- A range of memory is read, if it lies inside. -/
  | read {first limit : Number} {printed : List Printed} {f : Fault} {m : Machine}
    (hle : limit.lt first = false) (hin : e.machine.checkRange first (limit - first) = .ok ())
    (h : e.machine.read first (limit - first) = ⟨.error f, printed, m⟩) :
    Raises e (.requestMemory first limit) .read printed f
  /-- The place of the stack is asked for. -/
  | stackBounds {printed : List Printed} {f : Fault} {m : Machine}
    (h : e.machine.stackBounds = ⟨.error f, printed, m⟩) :
    Raises e .requestStack .stackBounds printed f
  /-- The stack is read, if it is not empty and lies inside of memory. -/
  | readStack {bounds : StackBounds} {p p' : List Printed} {f : Fault} {m m' : Machine}
    (hs : e.machine.stackBounds = ⟨.ok bounds, p, m⟩) (hlt : bounds.limit.le bounds.first = false)
    (hin : m.checkRange bounds.first (bounds.limit - bounds.first) = .ok ())
    (h : m.read bounds.first (bounds.limit - bounds.first) = ⟨.error f, p', m'⟩) :
    Raises e .requestStack .read (p ++ p') f
  /-- Bytes are written, if they fit into memory. -/
  | write {address : Number} {bytes : Bytes} {printed : List Printed} {f : Fault} {m : Machine}
    (hin : e.machine.checkRange address (bytes.length : Number) = .ok ())
    (h : e.machine.write address bytes = ⟨.error f, printed, m⟩) :
    Raises e (.setMemory address bytes) .write printed f
  /-- A register is written, if there is one of that name and the value fits. -/
  | setRegister {name : String} {r : Register} {value : Number} {printed : List Printed} {f : Fault}
    {m : Machine} (hr : Register.ofName? name = some r) (hv : value.isWithin r.limit = true)
    (h : e.machine.setRegister r value = ⟨.error f, printed, m⟩) :
    Raises e (.setRegister name value) .setRegister printed f
  /-- A key is given to the program, if it is asked for. -/
  | supplyKey {key : String} {printed : List Printed} {f : Fault} {m : Machine}
    (hp : e.relay.pending = some .key) (h : e.machine.supplyKey key = ⟨.error f, printed, m⟩) :
    Raises e (.inputKey key) .supplyKey printed f
  /-- A string is given to the program, if it is asked for. -/
  | supplyString {text : Utf16} {printed : List Printed} {f : Fault} {m : Machine}
    (hp : e.relay.pending = some .string)
    (h : e.machine.supplyString text = ⟨.error f, printed, m⟩) :
    Raises e (.inputString text) .supplyString printed f

/-- Taking up a call that fails: the machine and what it printed are taken over, and the fault is
raised again. -/
lemma took_of_error {α : Type} {call : Machine.Call α} (h : call = ⟨.error f, printed, m⟩)
    (next : Engine → α → Work) :
    e.took call next = ⟨{ e with machine := m }, e.relayed printed, some f⟩ := by
  subst h
  rfl

/-- Taking up a call that gives a result: work goes on with that, on the machine that the call has
left. -/
lemma took_of_ok {α : Type} {call : Machine.Call α} {a : α} (h : call = ⟨.ok a, printed, m⟩)
    (next : Engine → α → Work) :
    e.took call next =
      ⟨(next { e with machine := m } a).engine,
        e.relayed printed ++ (next { e with machine := m } a).trace,
        (next { e with machine := m } a).fault⟩ := by
  subst h
  rfl

/-! ## Where faults come from -/

/-- Work that begins with a call is cut short by a fault of that call, or by one of the work that
goes on from its answer. -/
lemma took_eq_fault {α : Type} {call : Machine.Call α} {next : Engine → α → Work}
    (h : (e.took call next).fault = some f) :
    call.result = .error f ∨ ∃ a, call = ⟨.ok a, call.printed, call.machine⟩ ∧
      (next { e with machine := call.machine } a).fault = some f := by
  rcases call with ⟨result | a, p, m⟩
  · exact .inl (congrArg Except.error (Option.some.inj h))
  · exact .inr ⟨a, rfl, h⟩

/-- Work that runs the program is cut short only by a fault of that call. -/
lemma running_eq_fault {call : Machine.Call RunResult} (h : (e.running call).fault = some f) :
    call.result = .error f := by
  rcases call with ⟨f' | result, p, m⟩
  · unfold running at h
    dsimp only at h
    split_ifs at h with hv
    exact congrArg Except.error (Option.some.inj h)
  · cases result <;> cases h

/-- Changing the breakpoints is cut short only by the fault of the change. -/
lemma withBreakpoints_eq_fault {result : Except Fault Breakpoints}
    (h : (e.withBreakpoints result).fault = some f) : result = .error f := by
  cases result with
  | ok breakpoints => cases h
  | error f' => exact congrArg Except.error (Option.some.inj h)

/-- A number that is no address is refused, which is no fault of the machine. -/
lemma isRefusal_of_address {α : Type} {address : Number} {change : { a : Nat // a ≤ 0xffff } → α}
    (h : (Breakpoints.address address).map change = .error f) : f.isRefusal = true := by
  unfold Breakpoints.address at h
  split at h <;> cases h
  rfl

/-- A step is cut short by a refusal, or by a fault that asking for the registers or the step itself
raises.

**Proof sketch.** A suspended engine refuses to step. One that is idle asks for the registers first,
and steps unless there is a breakpoint. -/
lemma stepOnce_eq_fault (he : e.terminated = false) {checkBreakpoints : Bool} (hc : c.isStep = true)
    (hb : c = .step → checkBreakpoints = true) (h : (e.stepOnce checkBreakpoints).fault = some f) :
    f.isRefusal = true ∨ ∃ method printed, e.Raises c method printed f := by
  unfold stepOnce at h
  split at h
  case h_1 =>
    cases h
    exact .inl rfl
  case h_2 hns =>
    have hs : e.state = .idle := by
      rw [terminated] at he
      cases hs : e.state with
      | idle => rfl
      | suspended pending => exact absurd hs (hns pending)
      | stopped | finished reason =>
        rw [hs] at he
        cases he
    rcases took_eq_fault h with hf | ⟨regs, hr, hf⟩
    · exact .inr ⟨_, _, .stepRegisters hc hs (Machine.Call.eq_of_result hf)⟩
    · dsimp only at hf
      split_ifs at hf with hgo
      · cases hf
      · have hnone : c = .step → e.breakpoints.contains regs.pc = false := by
          intro hstep
          rw [hb hstep, Bool.true_and] at hgo
          exact Bool.eq_false_iff.2 hgo
        exact .inr ⟨_, _, .step hc hs hr hnone (Machine.Call.eq_of_result (running_eq_fault hf))⟩

/-- An input is cut short by a refusal, or by a fault of delivering what the program has asked for.

**Proof sketch.** If input of this kind is asked for then only delivering it can fail. Otherwise the
relay refuses the input, and that is a refusal. -/
lemma input_eq_fault {i : Input} (h : (e.input i).fault = some f) :
    f.isRefusal = true ∨ e.relay.pending = some i.kind ∧
      (i.deliver e.machine).result = .error f := by
  by_cases hp : e.relay.pending = some i.kind
  · rw [input_of_pending_eq hp] at h
    exact .inr ⟨hp, running_eq_fault h⟩
  · have hr : e.relay.refusal i.kind = some (.unexpectedInput i.kind e.relay.pending) := if_neg hp
    unfold input Relay.supply at h
    rw [hr] at h
    obtain rfl : Fault.unexpectedInput i.kind e.relay.pending = f :=
      Except.error.inj (running_eq_fault h)
    exact .inl rfl

/-- **What cuts a command short** is a fault that a method raises, or a refusal.

**Proof sketch.** One case for each command, by the lemma about the call that it makes. The refusals
are left aside, and every other fault is raised by the method that the case names. -/
theorem raises_of_fault (he : e.terminated = false) (h : (e.apply c).fault = some f) :
    f.isRefusal = true ∨ ∃ method printed, e.Raises c method printed f := by
  unfold apply at h
  cases c with
  | step => exact stepOnce_eq_fault he rfl (fun _ => rfl) h
  | stepIgnoringBreakpoints => exact stepOnce_eq_fault he rfl nofun h
  | stop => cases h
  | setBreakpoint address | clearBreakpoint address =>
    exact .inl (isRefusal_of_address (withBreakpoints_eq_fault h))
  | requestDump =>
    rcases took_eq_fault h with hf | ⟨_, _, hf⟩
    · exact .inr ⟨_, _, .dump (Machine.Call.eq_of_result hf)⟩
    · cases hf
  | requestMemory first limit =>
    rcases took_eq_fault h with hf | ⟨_, _, hf⟩
    · exact (Machine.readRange_eq_error hf).imp_right fun ⟨hle, hin, hf⟩ =>
        ⟨_, _, .read hle hin (Machine.Call.eq_of_result hf)⟩
    · cases hf
  | requestStack =>
    rcases took_eq_fault h with hf | ⟨_, _, hf⟩
    · rcases Machine.readStack_eq_error hf with hf | hf | ⟨bounds, p, m', hs, hlt, hin, hf⟩
      · exact .inl hf
      · exact .inr ⟨_, _, .stackBounds (Machine.Call.eq_of_result hf)⟩
      · exact .inr ⟨_, _, .readStack hs hlt hin (Machine.Call.eq_of_result hf)⟩
    · cases hf
  | setMemory address bytes =>
    rcases took_eq_fault h with hf | ⟨_, _, hf⟩
    · exact (Machine.checked_eq_error hf).imp_right fun ⟨hin, hf⟩ =>
        ⟨_, _, .write hin (Machine.Call.eq_of_result hf)⟩
    · cases hf
  | setRegister name value =>
    rcases took_eq_fault h with hf | ⟨_, _, hf⟩
    · exact (Machine.writeRegister_eq_error hf).imp_right fun ⟨r, hr, hv, hf⟩ =>
        ⟨_, _, .setRegister hr hv (Machine.Call.eq_of_result hf)⟩
    · cases hf
  | inputKey key =>
    exact (input_eq_fault h).imp_right fun ⟨hp, hf⟩ =>
      ⟨_, _, .supplyKey hp (Machine.Call.eq_of_result hf)⟩
  | inputString text =>
    exact (input_eq_fault h).imp_right fun ⟨hp, hf⟩ =>
      ⟨_, _, .supplyString hp (Machine.Call.eq_of_result hf)⟩

/-! ## Work that meets a fault -/

/-- The events that tell of a crash: its message, if that is not empty, and the crash. -/
def crashEvents (f : Fault) : List Event :=
  (if f.message.isEmpty then [] else [.errorOutput f.message]) ++ [.crashed]

/-- Work is *cut short* by a fault: what was printed is told of, and the engine stands as it did. -/
structure CutShort (e : Engine) (printed : List Printed) (f : Fault) (w : Work) : Prop where
  fault : w.fault = some f
  events : Emission.events w.trace = e.relay.events printed
  state : w.engine.state = e.state
  breakpoints : w.engine.breakpoints = e.breakpoints

/-- Work *crashes* with a fault: what was printed is told of, and then the crash. -/
structure Crashes (e : Engine) (printed : List Printed) (f : Fault) (w : Work) : Prop where
  fault : w.fault = none
  events : Emission.events w.trace = e.relay.events printed ++ crashEvents f
  state : w.engine.state = .finished .crashed

/-- What a crash tells of: the message of its fault, if that is not empty, and the end of the
session. -/
lemma events_crash (e : Engine) (f : Fault) :
    Emission.events (e.crash (some f.message)).2 = crashEvents f := by
  simp only [crash, reasonEvent, crashEvents, Emission.events_append]
  split_ifs <;> rfl

/-- A method that does not run the program cuts the work short with any of its faults. -/
lemma CutShort.of_not_runs {w : Work} (h : CutShort e printed f w) {method : Machine.Method}
    (hruns : method.runs = false) :
    (method.runs = true → f.kind ≠ .violation → Crashes e printed f w) ∧
      ((method.runs = true → f.kind = .violation) → CutShort e printed f w) :=
  ⟨fun hr => absurd (hruns.symm.trans hr) Bool.false_ne_true, fun _ => h⟩

/-- A call that fails and is taken up cuts the work short. -/
lemma cutShort_took {α : Type} {call : Machine.Call α} (h : call = ⟨.error f, printed, m⟩)
    (next : Engine → α → Work) : CutShort e printed f (e.took call next) := by
  rw [took_of_error h]
  exact ⟨rfl, Emission.events_map_event _, rfl, rfl⟩

/-- A call that fails while it runs the program: the work is cut short if the command was not
allowed, and crashes otherwise.

**Proof sketch.** A violation cuts the work short where it is, with what was printed before. Any
other fault is told of and makes the engine crash, all inside the work. -/
lemma running_of_error {call : Machine.Call RunResult} (h : call = ⟨.error f, printed, m⟩) :
    (f.kind = .violation → CutShort e printed f (e.running call)) ∧
      (f.kind ≠ .violation → Crashes e printed f (e.running call)) := by
  subst h
  have hp : Emission.events (e.relayed printed) = e.relay.events printed :=
    Emission.events_map_event _
  constructor
  · intro hf
    have hw : e.running ⟨.error f, printed, m⟩ =
        ⟨{ e with machine := m }, e.relayed printed, some f⟩ := if_pos hf
    rw [hw]
    exact ⟨rfl, hp, rfl, rfl⟩
  · intro hf
    have hw : e.running ⟨.error f, printed, m⟩ =
        ⟨(crash { e with machine := m } (some f.message)).1,
          e.relayed printed ++ .note .error ("Device fault: " ++ f.message) ::
            (crash { e with machine := m } (some f.message)).2, none⟩ := if_neg hf
    rw [hw]
    refine ⟨rfl, ?_, rfl⟩
    rw [Emission.events_append, hp]
    exact congrArg (e.relay.events printed ++ ·) (events_crash { e with machine := m } f)

/-- Texts that were printed before are told of first. -/
lemma CutShort.after {w : Work} {p : List Printed}
    (h : CutShort { e with machine := m } printed f w) :
    CutShort e (p ++ printed) f ⟨w.engine, e.relayed p ++ w.trace, w.fault⟩ where
  fault := h.fault
  events := by
    rw [Emission.events_append, h.events, relayed, Emission.events_map_event, Relay.events_append]
  state := h.state
  breakpoints := h.breakpoints

/-- A crash behind an answer of the machine: what was printed with that answer comes first. -/
lemma Crashes.after {w : Work} {p : List Printed}
    (h : Crashes { e with machine := m } printed f w) :
    Crashes e (p ++ printed) f ⟨w.engine, e.relayed p ++ w.trace, w.fault⟩ where
  fault := h.fault
  events := by
    rw [Emission.events_append, h.events, relayed, Emission.events_map_event, Relay.events_append,
      List.append_assoc]
  state := h.state

/-- An instruction that fails, where a step gets to it.

**Proof sketch.** The registers are told and no breakpoint holds the step, so it is the instruction
that runs; what was printed for the registers comes before what it has printed. -/
lemma stepOnce_of_error {regs : Snapshot} {p : List Printed} {m' : Machine}
    {checkBreakpoints : Bool} (hs : e.state = .idle) (hr : e.machine.registers = ⟨.ok regs, p, m⟩)
    (hb : checkBreakpoints = true → e.breakpoints.contains regs.pc = false)
    (h : m.step = ⟨.error f, printed, m'⟩) :
    (f.kind = .violation → CutShort e (p ++ printed) f (e.stepOnce checkBreakpoints)) ∧
      (f.kind ≠ .violation → Crashes e (p ++ printed) f (e.stepOnce checkBreakpoints)) := by
  have hgo : (checkBreakpoints && e.breakpoints.contains regs.pc) = false := by
    cases checkBreakpoints with
    | false => rfl
    | true => exact hb rfl
  have htook : e.stepOnce checkBreakpoints = e.took e.machine.registers fun e regs =>
      if checkBreakpoints && e.breakpoints.contains regs.pc then e.answer (.breakpointHit regs.pc)
      else e.running e.machine.step := by
    rw [stepOnce, hs]
  have hw : e.stepOnce checkBreakpoints =
      ⟨(running { e with machine := m } m.step).engine,
        e.relayed p ++ (running { e with machine := m } m.step).trace,
        (running { e with machine := m } m.step).fault⟩ := by
    rw [htook, took_of_ok hr]
    dsimp only
    rw [hgo, if_neg Bool.false_ne_true]
  obtain ⟨hcut, hcrash⟩ := running_of_error (e := { e with machine := m }) h
  rw [hw]
  exact ⟨fun hf => (hcut hf).after, fun hf => (hcrash hf).after⟩

/-- Input that the machine fails to take is cut short by a violation, after what was printed, and
crashes the session for any other fault. -/
lemma input_of_error {i : Input} (hp : e.relay.pending = some i.kind)
    (h : i.deliver e.machine = ⟨.error f, printed, m⟩) :
    (f.kind = .violation → CutShort e printed f (e.input i)) ∧
      (f.kind ≠ .violation → Crashes e printed f (e.input i)) := by
  obtain ⟨hcut, hcrash⟩ := running_of_error (e := e.answered) h
  rw [input_of_pending_eq hp]
  refine ⟨fun hf => ?_, fun hf => ?_⟩
  · exact ⟨(hcut hf).fault, (hcut hf).events, (hcut hf).state, (hcut hf).breakpoints⟩
  · exact ⟨(hcrash hf).fault, (hcrash hf).events, (hcrash hf).state⟩

/-- **A fault of a method** cuts the command short or crashes it. It crashes the command at once
exactly if the method runs the program and the command was allowed.

**Proof sketch.** One case for each method. The step and the deliveries of inputs run the program,
so their faults are split by whether they are violations. The other methods are called outside of
that, where every fault cuts the command short. -/
theorem apply_of_raises (h : e.Raises c method printed f) :
    (method.runs = true → f.kind ≠ .violation → Crashes e printed f (e.apply c)) ∧
      ((method.runs = true → f.kind = .violation) → CutShort e printed f (e.apply c)) := by
  cases h with
  -- the registers of a step are asked for outside of the call that runs the program
  | stepRegisters hc hs h =>
    have hstep (b : Bool) : CutShort e printed f (e.stepOnce b) := by
      rw [stepOnce, hs]
      exact cutShort_took h _
    cases c <;> first | exact (hstep _).of_not_runs rfl | cases hc
  | step hc hs hr hb h =>
    have hstep (b : Bool) (hbc : b = true → c = .step) :=
      stepOnce_of_error hs hr (fun hbt => hb (hbc hbt)) h
    cases c with
    | step =>
      exact ⟨fun _ => (hstep true fun _ => rfl).2, fun hv => (hstep true fun _ => rfl).1 (hv rfl)⟩
    | stepIgnoringBreakpoints =>
      have hfalse := hstep false fun hf => absurd hf Bool.false_ne_true
      exact ⟨fun _ => hfalse.2, fun hv => hfalse.1 (hv rfl)⟩
    | _ => cases hc
  | dump h =>
    rw [apply]
    exact (cutShort_took h _).of_not_runs rfl
  | read hle hin h =>
    rw [apply]
    exact (cutShort_took (Machine.readRange_of_error hle hin h) _).of_not_runs rfl
  | stackBounds h =>
    rw [apply]
    exact (cutShort_took (Machine.readStack_of_error h) _).of_not_runs rfl
  | readStack hs hlt hin h =>
    rw [apply]
    exact (cutShort_took (Machine.readStack_of_read_error hs hlt hin h) _).of_not_runs rfl
  | write hin h =>
    rw [apply]
    exact (cutShort_took (Machine.writeAt_of_error hin h) _).of_not_runs rfl
  | setRegister hr hv h =>
    rw [apply]
    exact (cutShort_took (Machine.writeRegister_of_error hr hv h) _).of_not_runs rfl
  | supplyKey hp h =>
    have hi := input_of_error (i := .key _) hp h
    exact ⟨fun _ => hi.2, fun hv => hi.1 (hv rfl)⟩
  | supplyString hp h =>
    have hi := input_of_error (i := .string _) hp h
    exact ⟨fun _ => hi.2, fun hv => hi.1 (hv rfl)⟩

/-! ## Commands that meet a fault -/

/-- A command to a live engine lets out the events of the work, and leaves the engine of the work.
-/
lemma events_handle (he : e.terminated = false) (c : Command) :
    Emission.events (e.handle c).2 = Emission.events (e.handleLive c).2 ∧
      (e.handle c).1 = (e.handleLive c).1 := by
  simp only [handle, he, Bool.false_eq_true, if_false, Emission.events_append, and_true]
  split_ifs <;> rfl

/-- A command whose work crashes ends the session, and tells of what was printed before the crash.
-/
lemma Crashes.handle (he : e.terminated = false) (h : Crashes e printed f (e.apply c)) :
    Emission.events (e.handle c).2 = e.relay.events printed ++ crashEvents f ∧
      (e.handle c).1.state = .finished .crashed := by
  have hlive : e.handleLive c = ((e.apply c).engine, (e.apply c).trace) := by
    rw [handleLive]
    dsimp only
    rw [h.fault]
  obtain ⟨hevents, hengine⟩ := events_handle he c
  rw [hevents, hengine, hlive]
  exact ⟨h.events, h.state⟩

/-- A command whose work is cut short by a crash of the machine ends the session; any other fault is
told of.

**Proof sketch.** Handling the command is applying it and then recovering from the fault, which
crashes the engine exactly for a crash of the machine. -/
lemma CutShort.handle (he : e.terminated = false) (h : CutShort e printed f (e.apply c)) :
    (f.kind = .crash → Emission.events (e.handle c).2 = e.relay.events printed ++ crashEvents f ∧
      (e.handle c).1.state = .finished .crashed) ∧
    (f.kind ≠ .crash →
      Emission.events (e.handle c).2 = e.relay.events printed ++ [.errorOutput f.message] ∧
      (e.handle c).1.state = e.state ∧ (e.handle c).1.breakpoints = e.breakpoints) := by
  have hlive : e.handleLive c =
      (((e.apply c).engine.recover f).1,
        (e.apply c).trace ++ ((e.apply c).engine.recover f).2) := by
    rw [handleLive]
    dsimp only
    rw [h.fault]
  obtain ⟨hevents, hengine⟩ := events_handle he c
  rw [hevents, hengine, hlive]
  dsimp only
  rw [Emission.events_append, h.events]
  constructor
  · intro hf
    rw [recover, if_pos hf]
    exact ⟨congrArg (e.relay.events printed ++ ·) (events_crash (e.apply c).engine f), rfl⟩
  · intro hf
    rw [recover, if_neg hf]
    refine ⟨congrArg (e.relay.events printed ++ ·) ?_, h.state, h.breakpoints⟩
    dsimp only
    split_ifs <;> rfl

/-- **A fault that a method raises** while a live engine handles a command. If it is fatal, the
command tells of what was printed, of the message of the fault unless that is empty, and of the
crash, and the session has ended. Otherwise it tells of what was printed and of the message, and the
state and the breakpoints are as before.

**Proof sketch.** By `apply_of_raises` the command crashes at once or is cut short, and in the
second case `CutShort.handle` says what comes of it. What a machine prints is never the event of a
crash. -/
theorem handle_of_raises (he : e.terminated = false) (h : e.Raises c method printed f) :
    (method.IsFatal f →
      Emission.events (e.handle c).2 = e.relay.events printed ++
        ((if f.message.isEmpty then [] else [.errorOutput f.message]) ++ [.crashed]) ∧
      (e.handle c).1.state = .finished .crashed) ∧
    (¬ method.IsFatal f →
      Emission.events (e.handle c).2 = e.relay.events printed ++ [.errorOutput f.message] ∧
      .crashed ∉ Emission.events (e.handle c).2 ∧
      (e.handle c).1.state = e.state ∧ (e.handle c).1.breakpoints = e.breakpoints) := by
  obtain ⟨hcrashes, hcut⟩ := apply_of_raises h
  -- what is printed gives no event but those of the two channels
  have hnone : Event.crashed ∉ e.relay.events printed ++ [.errorOutput f.message] := by
    intro hm
    rcases List.mem_append.1 hm with hm | hm
    · obtain ⟨text, ht | ht⟩ := Relay.exists_of_mem_events hm <;> cases ht
    · cases List.mem_singleton.1 hm
  unfold Machine.Method.IsFatal
  cases hr : method.runs with
  | true =>
    rw [if_pos rfl]
    constructor
    · intro hf
      exact (hcrashes hr hf).handle he
    · intro hf
      have hv : f.kind = .violation := Decidable.not_not.1 hf
      obtain ⟨hevents, hstands⟩ := ((hcut fun _ => hv).handle he).2 (by rw [hv]; exact nofun)
      rw [hevents]
      exact ⟨rfl, hnone, hstands⟩
  | false =>
    rw [if_neg Bool.false_ne_true]
    have hw := hcut fun ht => absurd (hr.symm.trans ht) nofun
    constructor
    · intro hf
      exact (hw.handle he).1 hf
    · intro hf
      obtain ⟨hevents, hstands⟩ := (hw.handle he).2 hf
      rw [hevents]
      exact ⟨rfl, hnone, hstands⟩

/-- A machine that prints and then crashes when it is asked for its registers, and one that is told
to step and raises that this is not allowed. -/
theorem handle_of_raises_of_crash :
    (∃ e, start (.initial [(0, .nop)] 0
        { registers := [some ⟨[(.output, "a")], some (.error (.raised .crash "b"))⟩] }) false = e ∧
      Emission.events (e.handle .step).2 = [.output "a", .errorOutput "b", .crashed] ∧
      (e.handle .step).1.state = .finished .crashed) ∧
    (∃ e, start (.initial [(0, .nop)] 0
        { step := [some ⟨[(.output, "a")], some (.error (.raised .violation ""))⟩] }) false = e ∧
      Emission.events (e.handle .step).2 = [.output "a", .errorOutput ""] ∧
      (e.handle .step).1.state = .idle) := by
  constructor
  · refine ⟨_, rfl, ?_⟩
    have hr := Raises.stepRegisters (e := start (.initial [(0, .nop)] 0
      { registers := [some ⟨[(.output, "a")], some (.error (.raised .crash "b"))⟩] }) false)
      (c := .step) rfl rfl rfl
    exact (handle_of_raises rfl hr).1 rfl
  · refine ⟨_, rfl, ?_⟩
    have hr := Raises.step (e := start (.initial [(0, .nop)] 0
      { step := [some ⟨[(.output, "a")], some (.error (.raised .violation ""))⟩] }) false)
      (c := .step) rfl rfl rfl (fun _ => rfl) rfl
    obtain ⟨hevents, -, hstate, -⟩ := (handle_of_raises rfl hr).2 (by decide)
    exact ⟨hevents, hstate⟩

end Engine

end DebugWire
