import DebugWire.Proofs.Hex
import DebugWire.Proofs.Json.RoundTrip
import DebugWire.Proofs.Script.Building
import DebugWire.Wire.Printable

set_option relaxedAutoImplicit false
set_option autoImplicit false

/-!
# Lines that show frames

The line of a frame that can be written reads as the JSON object of its kind and its fields. The
frame is read back from that object, since the digits of bytes stand for these bytes alone, so it is
the line of no other frame. The stream of a script without strings is shown as one such line for
each command.

## Main definitions

* `DebugWire.Command.ofJson?`, `DebugWire.Event.ofJson?` — the frame that an object shows.
* `DebugWire.Command.ShownBy` — a line that shows a command.

## Main results

* `DebugWire.Command.ofJson?_toJson`, `DebugWire.Event.ofJson?_toJson` — a frame is read back from
  its object.
* `DebugWire.Command.faithful_toJson`, `DebugWire.Event.faithful_toJson` — the object of a frame
  reads back.
* `DebugWire.Command.carried_eq_of_toJson_eq` — commands with different frames have different
  objects.
* `DebugWire.Script.printCommands_encode` — the lines of a script.
-/

namespace DebugWire

/-! ## Members -/

namespace Json

/-- The number of a member. -/
def numberAt? (name : String) (v : Json) : Option Number := (v.get? name).bind number?

/-- The text of a member. -/
def stringAt? (name : String) (v : Json) : Option String := (v.get? name).bind string?

/-- The bytes of a member that stand there in base sixteen. -/
def bytesAt? (name : String) (v : Json) : Option Bytes := (v.stringAt? name).bind Hex.parse?

/-- A number of sixteen bits reads back, as all whole numbers up to the exact limit do. -/
lemma faithful_natCast {n : ℕ} (h : n ≤ 0xffff) : (number (n : Number)).Faithful :=
  .number (by simp only [Number.exactLimit, Int.natAbs_natCast]; omega)

end Json

/-! ## Commands -/

/-- A kind of command is found by its name. -/
@[simp]
lemma CommandTag.ofName?_name (t : CommandTag) : ofName? t.name = some t := by
  cases t <;> decide

namespace Command

variable {c d : Command}

/-- The names of the members that objects of commands have. -/
def memberNames : List (List String) :=
  [["type"], ["type", "address"], ["type", "key"], ["type", "text"], ["type", "from", "to"],
    ["type", "address", "bytes"], ["type", "register", "value"]]

/-- Objects of commands list their members as objects do. -/
lemma ofMembers_toJson (c : Command) :
    Json.ofMembers (("type", .string c.name) :: c.members) =
      .object (("type", .string c.name) :: c.members) := by
  have hnames : (("type", Json.string c.name) :: c.members).map (·.1) ∈ memberNames := by
    cases c <;> simp [members, memberNames]
  have hplain : ∀ ns ∈ memberNames, ns.Nodup ∧ ∀ n ∈ ns, Json.arrayIndex? n = none := by decide
  exact Json.ofMembers_eq (hplain _ hnames).1 (hplain _ hnames).2

/-- The fields of a command that can be written read back.

**Proof sketch.** One case for each command: texts are always faithful, and the numbers of a command
that can be written have sixteen bits. -/
lemma faithful_members (h : c.Encodes) : ∀ m ∈ c.members, m.2.Faithful := by
  cases c with
  | step | stepIgnoringBreakpoints | stop | requestDump | requestStack =>
    exact fun _ hm => absurd hm List.not_mem_nil
  | inputKey | inputString => exact List.forall_mem_singleton.2 (.string _)
  | setBreakpoint address | clearBreakpoint address =>
    obtain ⟨body, hbody⟩ := h.exists_encodeBody
    obtain ⟨n, hn, rfl⟩ := exists_natCast_of_encodeAddress hbody
    exact List.forall_mem_singleton.2 (Json.faithful_natCast hn)
  | requestMemory first limit =>
    obtain ⟨n, k, hn, hk, rfl, rfl⟩ := exists_natCast_of_requestMemory h
    exact List.forall_mem_cons.2 ⟨Json.faithful_natCast hn,
      List.forall_mem_singleton.2 (Json.faithful_natCast hk)⟩
  | setMemory address bytes =>
    obtain ⟨n, hn, rfl, -⟩ := exists_natCast_of_setMemory h
    exact List.forall_mem_cons.2 ⟨Json.faithful_natCast hn, List.forall_mem_singleton.2 (.string _)⟩
  | setRegister register value =>
    obtain ⟨n, hn, rfl⟩ := exists_natCast_of_setRegister h
    exact List.forall_mem_cons.2 ⟨.string _, List.forall_mem_singleton.2 (Json.faithful_natCast hn)⟩

/-- **The object of a command** that can be written reads back. -/
theorem faithful_toJson (h : c.Encodes) : c.toJson.Faithful :=
  .object (ofMembers_toJson c) (List.forall_mem_cons.2 ⟨.string _, faithful_members h⟩)

/-- The command of a kind that an object shows. -/
def ofMembers? (v : Json) : CommandTag → Option Command
  | .step => some step
  | .stepIgnoringBreakpoints => some stepIgnoringBreakpoints
  | .stop => some stop
  | .setBreakpoint => (v.numberAt? "address").map setBreakpoint
  | .clearBreakpoint => (v.numberAt? "address").map clearBreakpoint
  | .requestDump => some requestDump
  | .inputKey => (v.stringAt? "key").map inputKey
  | .inputString => (v.stringAt? "text").map inputString
  | .requestMemory => do return requestMemory (← v.numberAt? "from") (← v.numberAt? "to")
  | .requestStack => some requestStack
  | .setMemory => do return setMemory (← v.numberAt? "address") (← v.bytesAt? "bytes")
  | .setRegister => do return setRegister (← v.stringAt? "register") (← v.numberAt? "value")

/-- The command that an object shows. -/
def ofJson? (v : Json) : Option Command :=
  do ofMembers? v (← CommandTag.ofName? (← v.stringAt? "type"))

/-- **A command is read back** from its object as its frames carry it.

**Proof sketch.** The name of the kind is found again, and one case for each kind finds the fields.
Only bytes of memory are a text of their own, in base sixteen. -/
theorem ofJson?_toJson (c : Command) : ofJson? c.toJson = some c.carried := by
  have htype : Json.stringAt? "type" c.toJson = some c.tag.name := rfl
  have hmembers : ofMembers? c.toJson c.tag = some c.carried := by
    cases c with
    | setMemory address bytes =>
      have hbytes : Json.bytesAt? "bytes" (setMemory address bytes).toJson = some bytes :=
        Hex.parse?_ofBytes bytes
      rw [tag, ofMembers?, hbytes]
      rfl
    | _ => rfl
  rw [ofJson?, htype, Option.bind_eq_bind, Option.bind_some, CommandTag.ofName?_name]
  exact hmembers

/-- Commands with the same object are carried as the same one. -/
theorem carried_eq_of_toJson_eq (h : c.toJson = d.toJson) : c.carried = d.carried := by
  have hread := ofJson?_toJson c
  rw [h, ofJson?_toJson] at hread
  exact (Option.some.inj hread).symm

/-- A command that is no string has an object of its own. -/
lemma eq_of_toJson_eq (hp : c.payload? = none) (h : d.toJson = c.toJson) : d = c := by
  have hcarried := carried_eq_of_toJson_eq h
  rw [carried_of_payload?_eq_none hp] at hcarried
  cases d with
  | inputString text =>
    rw [← hcarried] at hp
    cases hp
  | _ => exact hcarried

/-- A line *shows* a command if it reads as the object of the command and is that of no other
command. -/
structure ShownBy (line : String) (c : Command) : Prop where
  /-- It reads as the object of the command. -/
  reads : Json.parse? line = some c.toJson
  /-- It reads as that of no other command. -/
  only : ∀ d : Command, Json.parse? line = some d.toJson → d = c

/-- The line of a command that can be written shows it, unless it is a string. -/
lemma shownBy_compact (h : c.Encodes) (hp : c.payload? = none) : ShownBy c.toJson.compact c where
  reads := Json.parse?_compact (faithful_toJson h)
  only d hd := by
    rw [Json.parse?_compact (faithful_toJson h)] at hd
    exact eq_of_toJson_eq hp (Option.some.inj hd).symm

end Command

/-! ## Events -/

/-- A kind of event is found by its name. -/
@[simp]
lemma EventTag.ofName?_name (t : EventTag) : ofName? t.name = some t := by
  cases t <;> decide

namespace Event

variable {e : Event} {frames : Bytes}

/-- The names of the members that objects of events have. -/
def memberNames : List (List String) :=
  [["type"], ["type", "text"], ["type", "address"], ["type", "json"], ["type", "bytes"]]

/-- Objects of events list their members as objects do. -/
lemma ofMembers_toJson (e : Event) :
    Json.ofMembers (("type", .string e.name) :: e.members) =
      .object (("type", .string e.name) :: e.members) := by
  have hnames : (("type", Json.string e.name) :: e.members).map (·.1) ∈ memberNames := by
    cases e <;> simp [members, memberNames]
  have hplain : ∀ ns ∈ memberNames, ns.Nodup ∧ ∀ n ∈ ns, Json.arrayIndex? n = none := by decide
  exact Json.ofMembers_eq (hplain _ hnames).1 (hplain _ hnames).2

/-- The fields of an event that can be written read back.

**Proof sketch.** One case for each event: texts are always faithful, and the address of a
breakpoint that can be written has sixteen bits. -/
lemma faithful_members (h : e.encode = .ok frames) : ∀ m ∈ e.members, m.2.Faithful := by
  cases e with
  | keyRequested | stringRequested | endOfProgram | crashed =>
    exact fun _ hm => absurd hm List.not_mem_nil
  | output | errorOutput | dumpResult | memoryResult | stackResult =>
    exact List.forall_mem_singleton.2 (.string _)
  | breakpointHit address =>
    simp only [encode, payload?] at h
    split at h
    case h_1 n hn =>
      rw [Number.eq_of_within? hn]
      exact List.forall_mem_singleton.2 (Json.faithful_natCast (Number.le_of_within? hn))
    case h_2 => cases h

/-- **The object of an event** that can be written reads back. -/
theorem faithful_toJson (h : e.encode = .ok frames) : e.toJson.Faithful :=
  .object (ofMembers_toJson e) (List.forall_mem_cons.2 ⟨.string _, faithful_members h⟩)

/-- The event of a kind that an object shows. -/
def ofMembers? (v : Json) : EventTag → Option Event
  | .output => (v.stringAt? "text").map output
  | .errorOutput => (v.stringAt? "text").map errorOutput
  | .breakpointHit => (v.numberAt? "address").map breakpointHit
  | .dumpResult => (v.stringAt? "json").map dumpResult
  | .memoryResult => (v.bytesAt? "bytes").map memoryResult
  | .stackResult => (v.bytesAt? "bytes").map stackResult
  | .keyRequested => some keyRequested
  | .stringRequested => some stringRequested
  | .endOfProgram => some endOfProgram
  | .crashed => some crashed

/-- The event that an object shows. -/
def ofJson? (v : Json) : Option Event := do ofMembers? v (← EventTag.ofName? (← v.stringAt? "type"))

/-- **An event is read back** from its object, with all of its fields. -/
theorem ofJson?_toJson (e : Event) : ofJson? e.toJson = some e := by
  have htype : Json.stringAt? "type" e.toJson = some e.tag.name := rfl
  have hmembers : ofMembers? e.toJson e.tag = some e := by
    cases e with
    | memoryResult bytes | stackResult bytes =>
      exact congrArg (Option.map _) (Hex.parse?_ofBytes bytes)
    | _ => rfl
  rw [ofJson?, htype, Option.bind_eq_bind, Option.bind_some, EventTag.ofName?_name]
  exact hmembers

end Event

/-! ## Scripts -/

/-- **The lines of a script** without strings are those of its commands, and no bytes are left. -/
theorem Script.printCommands_encode {s : Script} {stream : Bytes} (h : s.encode = .ok stream)
    (hs : ∀ c ∈ s, c.payload? = none) :
    printCommands stream = (s.map fun c => c.toJson.compact, 0) := by
  rw [printCommands, printStream, drain_encode_of_no_string h hs, List.map_map]
  rfl

end DebugWire
