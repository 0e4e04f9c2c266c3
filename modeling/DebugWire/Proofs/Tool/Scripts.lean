import DebugWire.Proofs.Wire.Printable
import DebugWire.Tool.Frames
import DebugWire.Tool.Scripts
import Mathlib.Data.List.Forall2

set_option relaxedAutoImplicit false
set_option autoImplicit false

/-!
# Scripts that are asked for

The command that makes a script prints what its options ask for. Its line, given to the command that
shows frames, comes back as one line for each command, in the order of the options, and each of
these lines shows its command. No line is an error and no bytes are left.

What is asked for is said here by itself, without the functions that make the script: which texts an
option has, which two parts a text gives, which addresses, bytes and registers these stand for, and
how often a step is taken.

## Main definitions

* `DebugWire.Tool.Scripts.Gives` — the two parts that a text gives.
* `DebugWire.Tool.Scripts.Request`, `DebugWire.Tool.Scripts.Asks` — what is asked for, and the
  options that ask for it.
* `DebugWire.Tool.Scripts.Request.commands` — its commands in order.

## Main results

* `DebugWire.Tool.Scripts.exists_of_script` — the script that options ask for.
* `DebugWire.Tool.Scripts.frames_run_of_run` — the lines that come back.
-/

namespace DebugWire

/-! ## Parts of texts -/

/-- The parts between separators are those of the list of characters. -/
lemma Text.splitAt_eq (separator : Char) (cs : List Char) :
    Text.splitAt separator cs = cs.splitOn separator := by
  have hfrom (part : List Char) :
      Text.splitFrom separator part cs = cs.splitOnPPrepend (· == separator) part := by
    induction cs generalizing part with
    | nil => rfl
    | cons c cs ih =>
      rw [Text.splitFrom, List.splitOnPPrepend]
      simp only [beq_iff_eq, ih]
  exact hfrom []

/-- The first part, and the others if there is a separator.

**Proof sketch.** By whether the separator is in the text. If it is, its first occurrence ends the
first part. -/
lemma Text.splitAt_cases (separator : Char) (cs : List Char) :
    (separator ∉ cs ∧ Text.splitAt separator cs = [cs]) ∨
      ∃ first rest, cs = first ++ separator :: rest ∧ separator ∉ first ∧
        Text.splitAt separator cs = first :: Text.splitAt separator rest := by
  have hsingle {cs : List Char} (h : separator ∉ cs) : cs.splitOnP (· == separator) = [cs] :=
    List.splitOnP_eq_singleton fun c hc => beq_false_of_ne fun heq => h (heq ▸ hc)
  by_cases h : separator ∈ cs
  · obtain ⟨first, rest, rfl, hfirst⟩ := List.eq_append_cons_of_mem h
    refine .inr ⟨first, rest, rfl, hfirst, ?_⟩
    have hjoint :=
      List.splitOnP_append_cons (p := (· == separator)) first rest (beq_self_eq_true separator)
    rw [splitAt_eq, splitAt_eq, List.splitOn, hjoint, hsingle hfirst]
    rfl
  · exact .inl ⟨h, by rw [splitAt_eq, List.splitOn, hsingle h]⟩

/-! ## Addresses -/

/-- An address has sixteen bits, or it would not have been accepted. -/
lemma Address.le_of_parse {text : String} {a : ℕ} (h : Address.parse text = .ok a) :
    a ≤ 0xffff := by
  rw [Address.parse] at h
  split at h
  case h_1 => cases h
  case h_2 n _ =>
    split at h
    case h_1 b hb => exact Except.ok.inj h ▸ Number.le_of_within? hb
    case h_2 => cases h

/-- The empty text is no address, so a part that is missing is none either. -/
lemma Address.parse_empty : Address.parse "" = .error (.invalid "") := rfl

/-- A command that has a code ends with it. -/
lemma Tool.Ending.eq_ok_of_code? {ending : Tool.Ending} {code : ℕ} (h : ending.code? = some code) :
    ending = .ok code := by
  cases ending with
  | ok c => rw [Option.some.inj h]
  | error _ | endless => cases h

namespace Tool.Scripts

/-! ## Parts that a text gives -/

/-- A text *gives* two parts at a separator: what stands in front of the first one, and what stands
behind it up to the next one or the end. -/
structure Gives (separator : Char) (text first second : String) : Prop where
  /-- No separator is in the first part. -/
  notMem_first : separator ∉ first.toList
  /-- No separator is in the second part. -/
  notMem_second : separator ∉ second.toList
  /-- The parts are in front of the text. -/
  text : ∃ rest, text.toList = first.toList ++ separator :: (second.toList ++ rest) ∧
    ∀ c ∈ rest.head?, c = separator

/-- A text with a second part gives this and its first part.

**Proof sketch.** Splitting the text once gives the first part, and splitting what is left gives the
second one. If nothing were left, the second part would be empty. -/
lemma gives_of_part {separator : Char} {text : String} (h : part (parts separator text) 1 ≠ "") :
    Gives separator text (part (parts separator text) 0) (part (parts separator text) 1) := by
  obtain ⟨-, hs⟩ | ⟨first, rest, htext, hfirst, hs⟩ := Text.splitAt_cases separator text.toList
  · exact absurd (by rw [parts, hs]; rfl) h
  · have h0 : part (parts separator text) 0 = String.ofList first := by rw [parts, hs]; rfl
    obtain ⟨hnone, hs'⟩ | ⟨second, rest', hrest, hsecond, hs'⟩ := Text.splitAt_cases separator rest
    · have h1 : part (parts separator text) 1 = String.ofList rest := by rw [parts, hs, hs']; rfl
      rw [h0, h1]
      refine ⟨by rwa [String.toList_ofList], by rwa [String.toList_ofList], [], ?_, nofun⟩
      rw [String.toList_ofList, String.toList_ofList, List.append_nil, htext]
    · have h1 : part (parts separator text) 1 = String.ofList second := by rw [parts, hs, hs']; rfl
      rw [h0, h1]
      refine ⟨by rwa [String.toList_ofList], by rwa [String.toList_ofList],
        separator :: rest', ?_, ?_⟩
      · rw [String.toList_ofList, String.toList_ofList, htext, hrest]
      · rintro _ ⟨⟩
        rfl

/-! ## Texts of options -/

/-- An option has texts: it is set to a list of them, or it is not set and there are none. -/
def Texts (o : Options) (name : String) (texts : List String) : Prop :=
  (o.get name = .null ∧ texts = []) ∨ o.get name = .array (texts.map .string)

variable {o : Options} {α : Type} {P : String → α → Prop} {f : String → Except Problem Script}
    {g : α → Script}

/-- What the texts of an option are turned into, if each text is turned into the commands for
something.

**Proof sketch.** Induction on the texts: each comes to the commands for one thing, and the rest is
by induction; an item that is no text is refused. -/
lemma exists_of_each (hf : ∀ text s, f text = .ok s → ∃ x, P text x ∧ s = g x) {call : String}
    {vs : List Json} {s : Script} (h : each call f vs = .ok s) :
    ∃ texts xs, vs = texts.map .string ∧ List.Forall₂ P texts xs ∧ s = xs.flatMap g := by
  induction vs generalizing s with
  | nil => exact ⟨[], [], rfl, .nil, (Except.ok.inj h).symm⟩
  | cons v vs ih =>
    cases v with
    | string text =>
      obtain ⟨first, hfirst, h⟩ := exists_of_bind_eq_ok h
      obtain ⟨rest, hrest, h⟩ := exists_of_bind_eq_ok h
      obtain rfl := Except.ok.inj h
      obtain ⟨x, hx, rfl⟩ := hf text first hfirst
      obtain ⟨texts, xs, rfl, hxs, rfl⟩ := ih hrest
      exact ⟨text :: texts, x :: xs, rfl, .cons hx hxs, rfl⟩
    | _ => cases h

/-- The items of an option, turned into commands one by one.

**Proof sketch.** An option that is not given has no items, and otherwise its value is the list of
them. -/
lemma exists_of_itemsOf (hf : ∀ text s, f text = .ok s → ∃ x, P text x ∧ s = g x)
    {call name : String}
    {vs : List Json} {s : Script} (hvs : itemsOf o name = .ok vs) (h : each call f vs = .ok s) :
    ∃ xs, (∃ texts, Texts o name texts ∧ List.Forall₂ P texts xs) ∧ s = xs.flatMap g := by
  obtain ⟨texts, xs, rfl, hxs, rfl⟩ := exists_of_each hf h
  refine ⟨xs, ⟨texts, ?_, hxs⟩, rfl⟩
  rw [itemsOf] at hvs
  cases hv : o.get name with
  | null =>
    rw [hv] at hvs
    exact .inl ⟨hv, List.map_eq_nil_iff.1 (Except.ok.inj hvs).symm⟩
  | array items =>
    rw [hv] at hvs
    exact .inr (hv.trans (congrArg Json.array (Except.ok.inj hvs)))
  | _ =>
    rw [hv] at hvs
    cases hvs

/-! ## Requests -/

/-- What is asked for. -/
structure Request where
  /-- The addresses of breakpoints. -/
  breakpoints : List ℕ
  /-- The bytes that are written, with their addresses. -/
  writes : List (ℕ × Bytes)
  /-- The registers that are written, with their values. -/
  registers : List (Register × ℕ)
  /-- How often a step is taken. -/
  steps : ℕ
  /-- Whether steps ignore breakpoints. -/
  force : Bool
  /-- Whether the registers are asked for. -/
  dump : Bool
  /-- The ranges of memory that are asked for. -/
  reads : List (ℕ × ℕ)
  /-- Whether the stack is asked for. -/
  stack : Bool
  /-- Whether the session is ended. -/
  stop : Bool

/-- A text stands for a write: an address and bytes with a comma between them. -/
def StandsForWrite (text : String) (w : ℕ × Bytes) : Prop :=
  ∃ first second, Gives ',' text first second ∧ Address.parse first = .ok w.1 ∧
    Hex.parse? second = some w.2

/-- A text stands for a register with a value: the name and the value with an equals sign between
them. -/
def StandsForRegister (text : String) (w : Register × ℕ) : Prop :=
  ∃ first second, Gives '=' text first second ∧ first = w.1.name ∧ Address.parse second = .ok w.2

/-- A text stands for a range of memory: two addresses with a comma between them. -/
def StandsForRange (text : String) (r : ℕ × ℕ) : Prop :=
  ∃ first second, Gives ',' text first second ∧ Address.parse first = .ok r.1 ∧
    Address.parse second = .ok r.2

/-- Options *ask* for a request: each text of a list stands for one item of the request, and each
flag says whether there is a command for it. -/
structure Asks (o : Options) (r : Request) : Prop where
  /-- Each text for a breakpoint is an address. -/
  breakpoints : ∃ texts, Texts o "bp" texts ∧
    List.Forall₂ (fun text a => Address.parse text = .ok a) texts r.breakpoints
  /-- Each text for a write is an address and bytes. -/
  writes : ∃ texts, Texts o "poke" texts ∧ List.Forall₂ StandsForWrite texts r.writes
  /-- Each text for a register is its name and its value. -/
  registers : ∃ texts, Texts o "reg" texts ∧ List.Forall₂ StandsForRegister texts r.registers
  /-- A step is taken once for each natural number below the count. -/
  steps : ∀ k : ℕ, k < r.steps ↔ Number.lt (k : Number) ((o.number? "step").getD 0) = true
  /-- The flag for steps that ignore breakpoints. -/
  force : r.force = o.flag "force"
  /-- The flag for the registers. -/
  dump : r.dump = o.flag "dump"
  /-- Each text for a range of memory is two addresses. -/
  reads : ∃ texts, Texts o "memory" texts ∧ List.Forall₂ StandsForRange texts r.reads
  /-- The flag for the stack. -/
  stack : r.stack = o.flag "stack"
  /-- The flag for the end. -/
  stop : r.stop = o.flag "stop"

/-- A command that is there for a flag. -/
def given (flag : Bool) (c : DebugWire.Command) : Script := if flag then [c] else []

/-- The commands of a request in the order of the options; each write is made by commands of its
own. -/
def Request.commands (r : Request) (writes : List Script) : Script :=
  r.breakpoints.map (fun a => .setBreakpoint (a : Number)) ++ writes.flatten
    ++ r.registers.map (fun w => .setRegister w.1.name (w.2 : Number))
    ++ List.replicate r.steps (if r.force then .stepIgnoringBreakpoints else .step)
    ++ given r.dump .requestDump ++
      r.reads.map (fun w => .requestMemory (w.1 : Number) (w.2 : Number))
    ++ given r.stack .requestStack ++ given r.stop .stop

/-! ## Texts that stand for commands -/

/-- A text that is taken for an address stands for it. -/
lemma parse_of_address {text : String} {x : Number} (h : address text = .ok x) :
    ∃ a : ℕ, Address.parse text = .ok a ∧ x = (a : Number) := by
  rw [address] at h
  cases ha : Address.parse text with
  | ok a =>
    rw [ha] at h
    exact ⟨a, rfl, (Except.ok.inj h).symm⟩
  | error problem =>
    rw [ha] at h
    cases h

/-- The addresses of writes that are asked for have sixteen bits. -/
lemma Asks.write_le {r : Request} (h : Asks o r) : ∀ w ∈ r.writes, w.1 ≤ 0xffff := by
  obtain ⟨texts, -, hall⟩ := h.writes
  generalize r.writes = ws at hall ⊢
  induction hall with
  | nil => exact fun _ hw => absurd hw List.not_mem_nil
  | cons hw _ ih =>
    obtain ⟨first, second, -, ha, -⟩ := hw
    exact List.forall_mem_cons.2 ⟨Address.le_of_parse ha, ih⟩

/-- A text that gives a breakpoint is the address of this. -/
lemma standsFor_of_breakpoint (text : String) (s : Script) (h : breakpoint text = .ok s) :
    ∃ a : ℕ, Address.parse text = .ok a ∧ s = [.setBreakpoint (a : Number)] := by
  obtain ⟨x, hx, h⟩ := exists_of_bind_eq_ok h
  obtain ⟨a, ha, rfl⟩ := parse_of_address hx
  exact ⟨a, ha, (Except.ok.inj h).symm⟩

/-- A text that gives a write stands for it.

**Proof sketch.** By the parts of the text: there is an address, it has been read, and what is
behind the comma are bytes. That part is not empty, because then the text would have been refused at
once. -/
lemma standsFor_of_poke (text : String) (s : Script) (h : poke text = .ok s) :
    ∃ w, StandsForWrite text w ∧ s = Script.pokes (w.1 : Number) w.2 := by
  rw [poke] at h
  split_ifs at h with hempty
  rw [not_or] at hempty
  obtain ⟨x, hx, h⟩ := exists_of_bind_eq_ok h
  obtain ⟨a, ha, rfl⟩ := parse_of_address hx
  split at h
  case h_1 bytes hbytes =>
    have hgives : Gives ',' text (part (parts ',' text) 0) (part (parts ',' text) 1) :=
      gives_of_part fun hnone => hempty.2 (by rw [hnone]; rfl)
    exact ⟨(a, bytes), ⟨_, _, hgives, ha, hbytes⟩, (Except.ok.inj h).symm⟩
  case h_2 => cases h

/-- A text that gives a register with a value stands for both. The value is not empty, since that is
no address.

**Proof sketch.** By the parts of the text: there is the name of a register, and an address behind
the sign. The empty text is no address, so the part is there. -/
lemma standsFor_of_register (text : String) (s : Script) (h : register text = .ok s) :
    ∃ w, StandsForRegister text w ∧ s = [.setRegister w.1.name (w.2 : Number)] := by
  rw [register] at h
  split at h
  case h_1 => cases h
  case h_2 r hr =>
    obtain ⟨x, hx, h⟩ := exists_of_bind_eq_ok h
    obtain ⟨a, ha, rfl⟩ := parse_of_address hx
    have hgives : Gives '=' text (part (parts '=' text) 0) (part (parts '=' text) 1) :=
      gives_of_part fun hnone => by rw [hnone, Address.parse_empty] at ha; cases ha
    exact ⟨(r, a), ⟨_, _, hgives, (Register.name_of_ofName? hr).symm, ha⟩, (Except.ok.inj h).symm⟩

/-- A text that gives a range of memory stands for it. -/
lemma standsFor_of_memory (text : String) (s : Script) (h : memory text = .ok s) :
    ∃ w, StandsForRange text w ∧ s = [.requestMemory (w.1 : Number) (w.2 : Number)] := by
  obtain ⟨x, hx, h⟩ := exists_of_bind_eq_ok h
  obtain ⟨y, hy, h⟩ := exists_of_bind_eq_ok h
  obtain ⟨a, ha, rfl⟩ := parse_of_address hx
  obtain ⟨b, hb, rfl⟩ := parse_of_address hy
  have hgives : Gives ',' text (part (parts ',' text) 0) (part (parts ',' text) 1) :=
    gives_of_part fun hnone => by rw [hnone, Address.parse_empty] at hb; cases hb
  exact ⟨(a, b), ⟨_, _, hgives, ha, hb⟩, (Except.ok.inj h).symm⟩

/-! ## Scripts -/

/-- **The script of options** has the commands of what they ask for, in order.

**Proof sketch.** The script is built step by step: the commands of each option are taken apart by
`exists_of_itemsOf`, and the number of rounds is the one that the endless loop does not have. -/
theorem exists_of_script {s : Script} (h : script o = .ok (some s)) :
    ∃ r, Asks o r ∧ s = r.commands (r.writes.map fun w => Script.pokes (w.1 : Number) w.2) := by
  obtain ⟨bps, hbps, h⟩ := exists_of_bind_eq_ok h
  obtain ⟨breakpoints, hbreakpoints, h⟩ := exists_of_bind_eq_ok h
  obtain ⟨ps, hps, h⟩ := exists_of_bind_eq_ok h
  obtain ⟨pokes, hpokes, h⟩ := exists_of_bind_eq_ok h
  obtain ⟨rs, hrs, h⟩ := exists_of_bind_eq_ok h
  obtain ⟨registers, hregisters, h⟩ := exists_of_bind_eq_ok h
  obtain ⟨n, ms, reads, hn, hms, hreads, rfl⟩ : ∃ n ms reads,
      Script.rounds? ((o.number? "step").getD 0) = some n ∧ itemsOf o "memory" = .ok ms ∧
      each "range.split" memory ms = .ok reads ∧ s = breakpoints ++ pokes ++ registers ++
        List.replicate n (if o.flag "force" then .stepIgnoringBreakpoints else .step) ++
        whenSet o "dump" .requestDump ++ reads ++ whenSet o "stack" .requestStack ++
          whenSet o "stop" .stop := by
    split at h
    case h_1 => cases Except.ok.inj h
    case h_2 steps hsteps =>
      obtain ⟨n, hn, rfl⟩ := Option.map_eq_some_iff.1 hsteps
      obtain ⟨ms, hms, h⟩ := exists_of_bind_eq_ok h
      obtain ⟨reads, hreads, h⟩ := exists_of_bind_eq_ok h
      exact ⟨n, ms, reads, hn, hms, hreads, (Option.some.inj (Except.ok.inj h)).symm⟩
  obtain ⟨as, has, rfl⟩ := exists_of_itemsOf standsFor_of_breakpoint hbps hbreakpoints
  obtain ⟨ws, hws, rfl⟩ := exists_of_itemsOf standsFor_of_poke hps hpokes
  obtain ⟨vs, hvs, rfl⟩ := exists_of_itemsOf standsFor_of_register hrs hregisters
  obtain ⟨ranges, hranges, rfl⟩ := exists_of_itemsOf standsFor_of_memory hms hreads
  refine ⟨⟨as, ws, vs, n, o.flag "force", o.flag "dump", ranges, o.flag "stack", o.flag "stop"⟩,
    ⟨has, hws, hvs, (Script.rounds?_eq_some_iff.1 hn).2, rfl, rfl, hranges, rfl, rfl⟩, ?_⟩
  rw [Request.commands, ← List.flatMap_def]
  simp only [whenSet, given, List.map_eq_flatMap]

/-- Only one command is there for a flag, or none. -/
lemma eq_of_mem_given {flag : Bool} {c d : DebugWire.Command} (h : c ∈ given flag d) : c = d := by
  cases flag with
  | true => exact List.mem_singleton.1 h
  | false => exact absurd h List.not_mem_nil

/-- No string is among the commands of a request.

**Proof sketch.** By the place of the command among those of the request: each of them but the
writes is of a kind without a payload. -/
lemma Request.payload?_eq_none {r : Request} {writes : List Script}
    (h : ∀ s ∈ writes, ∀ c ∈ s, c.payload? = none) :
    ∀ c ∈ r.commands writes, c.payload? = none := by
  intro c hc
  simp only [commands, List.mem_append, List.mem_map, List.mem_flatten, List.mem_replicate] at hc
  rcases hc with
    ((((((⟨a, -, rfl⟩ | ⟨s, hs, hc⟩) | ⟨w, -, rfl⟩) | ⟨-, rfl⟩) | hc) | ⟨w, -, rfl⟩) | hc) | hc
  · rfl
  · exact h s hs c hc
  · rfl
  · cases r.force <;> rfl
  · rw [eq_of_mem_given hc]
    rfl
  · rfl
  · rw [eq_of_mem_given hc]
    rfl
  · rw [eq_of_mem_given hc]
    rfl

/-- The commands of a write are among those of a request. -/
lemma Request.mem_commands {r : Request} {writes : List Script} {s : Script} {c : DebugWire.Command}
    (hs : s ∈ writes) (hc : c ∈ s) : c ∈ r.commands writes := by
  simp only [commands, List.mem_append, List.mem_flatten]
  exact .inl (.inl (.inl (.inl (.inl (.inl (.inr ⟨s, hs, hc⟩))))))

/-- What the command does if it succeeds without a file to write to: it prints the stream of the
script.

**Proof sketch.** The command succeeds only if there is a script and it has an encoding, and without
a file to write to its stream is printed. -/
lemma exists_of_run {files : Files} {code : ℕ} (h : (run files o).result = .ok code)
    (hout : o.get "output" = .null) :
    ∃ s stream, script o = .ok (some s) ∧ s.encode = .ok stream ∧
      run files o = ⟨[Hex.ofBytes stream], [], files, .ok 0⟩ := by
  have hdeliver (s : Script) : deliver files o s = (s.encode.mapError .fault).map fun stream =>
      (Hex.ofBytes stream, files) := by
    rw [deliver, hout]
    rfl
  match hs : script o with
  | .error problem =>
    rw [run, hs] at h
    cases h
  | .ok none =>
    rw [run, hs] at h
    cases h
  | .ok (some s) =>
    cases hstream : s.encode with
    | error f =>
      simp only [run, hs, hdeliver, hstream] at h
      cases h
    | ok stream =>
      refine ⟨s, stream, rfl, hstream, ?_⟩
      simp only [run, hs, hdeliver, hstream]
      rfl

/-- What the command that shows frames prints of bytes in base sixteen are the lines of the commands
in these bytes.

**Proof sketch.** The bytes are not empty, so neither is their text, which is read back as them.
Without the flag for events they are shown as commands. -/
lemma frames_run_eq {files : Files} {o : Options} {stream : Bytes} (hfile : o.get "file" = .null)
    (hhex : o.get "hex" = .string (Hex.ofBytes stream)) (hevents : o.flag "events" = false)
    (hne : stream ≠ []) {lines : List String} (h : printCommands stream = (lines, 0)) :
    Frames.run files o = ⟨lines, [], files, .ok 0⟩ := by
  have hgiven : Target.nonEmpty (some (Hex.ofBytes stream)) = some (Hex.ofBytes stream) := by
    have hnone : (Hex.ofBytes stream).isEmpty = false :=
      Bool.eq_false_iff.2 fun he => hne (Hex.ofBytes_inj.1 (String.isEmpty_iff.1 he))
    rw [Target.nonEmpty, Option.filter, hnone]
    rfl
  have hsource : Frames.source files o = .ok stream := by
    rw [Frames.source, hfile, hhex]
    simp only [text?, hgiven, Hex.parse?_ofBytes, bind, Except.bind]
    rfl
  rw [Frames.run, hsource]
  simp only [hevents, h, Bool.false_eq_true, if_false, if_true]

/-- **A script that is printed** comes back as its commands. The options may ask for any script that
is not empty.
* The command prints one line and leaves all files as they are.
* The line stands for bytes, and these are the frames of the commands that the options ask for, in
  order, with nothing behind them. The bytes of a write are cut into pieces that each fit a frame,
  one behind the other.
* The command that shows frames, given the line, prints one line for each of the commands and
  nothing else, and ends without an error. Each line shows its command.

**Proof sketch.** The script is that of a request which the options ask for, and since it has a
stream, all of its commands can be written. So no address of a piece is rounded. There are no
strings among the commands, hence none goes on in the next one, and the stream gives the commands
back one by one. The digits of the stream give the stream, and the line of a command reads as its
object because all numbers in it have sixteen bits. -/
theorem frames_run_of_run {files : Files} {code : ℕ} (hok : (run files o).result = .ok code)
    (hout : o.get "output" = .null) (hsome : script o ≠ .ok (some [])) :
    ∃ (r : Request) (writes : List Script) (line : String) (lines : List String),
      Asks o r ∧ List.Forall₂ (fun w s => Script.Writes w.1 w.2 s) r.writes writes ∧
      run files o = ⟨[line], [], files, .ok 0⟩ ∧
      (∃ stream, Hex.parse? line = some stream ∧
        (Reader.empty.push stream).drain Command.format =
          ((r.commands writes).map .value, Reader.empty)) ∧
      List.Forall₂ Command.ShownBy lines (r.commands writes) ∧
      ∀ (files' : Files) (o' : Options), o'.get "file" = .null → o'.get "hex" = .string line →
        o'.flag "events" = false → Frames.run files' o' = ⟨lines, [], files', .ok 0⟩ := by
  obtain ⟨s, stream, hs, hstream, hrun⟩ := exists_of_run hok hout
  obtain ⟨r, hr, rfl⟩ := exists_of_script hs
  have hencodes := Script.encodes_of_encode hstream
  have hwrites : ∀ w ∈ r.writes, Script.Writes w.1 w.2 (Script.pokes (w.1 : Number) w.2) :=
    fun w hw =>
    Script.writes_pokes (hr.write_le w hw) fun c hc =>
      hencodes c (Request.mem_commands (List.mem_map_of_mem hw) hc)
  have hpayload : ∀ c ∈ r.commands (r.writes.map fun w => Script.pokes (w.1 : Number) w.2),
      c.payload? = none := by
    refine Request.payload?_eq_none fun s hs => ?_
    obtain ⟨w, hw, rfl⟩ := List.mem_map.1 hs
    exact (hwrites w hw).payload?_eq_none
  have hne : stream ≠ [] := Script.ne_nil_of_encode hstream fun hnil => hsome (hnil ▸ hs)
  refine ⟨r, _, Hex.ofBytes stream, _, hr, ?_, hrun, ⟨stream, Hex.parse?_ofBytes stream,
    Script.drain_encode_of_no_string hstream hpayload⟩, ?_, fun files' o' hfile hhex hevents =>
      frames_run_eq hfile hhex hevents hne (Script.printCommands_encode hstream hpayload)⟩
  · exact List.forall₂_map_right_iff.2 (List.forall₂_same.2 hwrites)
  · exact List.forall₂_map_left_iff.2 (List.forall₂_same.2 fun c hc =>
    Command.shownBy_compact (hencodes c hc) (hpayload c hc))

/-- Options for one command of most kinds. -/
def sample : Options where
  specs := options
  names := .ofSpecs options
  values := [("bp", .array [.string "@x10"]), ("poke", .array [.string "0x20,00ff,more"]),
    ("reg", .array [.string "acc=7"]), ("step", .number 2), ("memory", .array [.string "0,16"]),
      ("stop", .bool true)]

/-- The line that is printed for them. -/
def sampleLine : String := "6200106e00200200ff72010765656d0000001071"

/-- A script of seven commands that is printed comes back as these. -/
theorem frames_run_of_run_sample :
    (run ⟨[], [], "/"⟩ sample).out = [sampleLine] ∧
    ∃ lines, List.Forall₂ Command.ShownBy lines [.setBreakpoint 16, .setMemory 32 [0x00, 0xff],
        .setRegister "acc" 7, .step, .step, .requestMemory 0 16, .stop] ∧
      Frames.run ⟨[], [], "/"⟩ { sample with values := [("hex", .string sampleLine)] } =
        ⟨lines, [], ⟨[], [], "/"⟩, .ok 0⟩ := by
  have hout : (run ⟨[], [], "/"⟩ sample).out = [sampleLine] := by decide +kernel
  have hok : (run ⟨[], [], "/"⟩ sample).result = .ok 0 := Ending.eq_ok_of_code? (by decide +kernel)
  have hsome : (script sample).toOption ≠ some (some []) := by decide +kernel
  have hitems : ((Reader.empty.push ((Hex.parse? sampleLine).getD [])).drain Command.format).1 =
      [.setBreakpoint 16, .setMemory 32 [0x00, 0xff], .setRegister "acc" 7, .step, .step,
        .requestMemory 0 16, DebugWire.Command.stop].map .value := by
    decide +kernel
  obtain ⟨r, writes, line, lines, -, -, hrun, ⟨stream, hstream, hdrain⟩, hlines, hframes⟩ :=
    frames_run_of_run hok rfl fun h => hsome (congrArg Except.toOption h)
  obtain rfl : line = sampleLine := by
    rw [hrun] at hout
    exact (List.cons.inj hout).1
  rw [hstream, Option.getD_some, hdrain] at hitems
  rw [List.map_injective_iff.2 (fun _ _ h => Item.value.inj h) hitems] at hlines
  exact ⟨hout, lines, hlines, hframes _ _ rfl rfl rfl⟩

end Tool.Scripts

end DebugWire
