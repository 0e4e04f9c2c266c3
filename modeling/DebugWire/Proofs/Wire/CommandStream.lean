import DebugWire.Proofs.Text.Units
import DebugWire.Proofs.Text.Utf8
import DebugWire.Proofs.Wire.Codec
import DebugWire.Proofs.Wire.Extension
import DebugWire.Proofs.Wire.Fields
import DebugWire.Script.Basic

set_option relaxedAutoImplicit false
set_option autoImplicit false

/-!
# Commands written and read

The stream of a script gives back what the frames of its commands carry, one for one, except that a
string whose last frame is full goes on in a string that comes next. The strings of such a run come
back as one, with their texts in a row. Strings come back with their repaired texts, which for a
text of characters is that text.

## Main definitions

* `DebugWire.Command.codec` — the decoder of commands and their encoder.
* `DebugWire.Command.runsInto` — a string that goes on in the next command.
* `DebugWire.Command.merged` — the commands that come back.

## Main results

* `DebugWire.Command.codec_carried` — what the frames of one command carry.
* `DebugWire.Command.decode_encode_append` — one command that is no string, in front of any bytes.
* `DebugWire.Script.drain_encode` — all that the stream of a script gives.
-/

namespace DebugWire

namespace Command

/-! ## One command -/

/-- The bytes of a string that is given, those of its repaired text; the other commands have none.
-/
def payload? : Command → Option Bytes
  | inputString text => some (Utf8.encode text.repaired)
  | _ => none

/-- A string with the text of other bytes in its place; the other commands stay. -/
def withPayload (c : Command) (payload : Bytes) : Command :=
  match c with
  | inputString _ => inputString (Utf8.decode payload)
  | c => c

/-- The frame of a command that is no string. -/
lemma encode_of_payload?_eq_none {c : Command} (hp : c.payload? = none) :
    c.encode = c.encodeBody.map (c.tag.byte :: ·) := by
  cases c <;> first | rfl | cases hp

/-- The command at the front of bytes is that of its first byte. -/
lemma decode_tag_byte_cons (tag : CommandTag) (rest : Bytes) :
    decode (tag.byte :: rest) = decodeTagged tag.byte tag rest := by
  rw [decode, CommandTag.ofByte?_byte]

/-- What follows the first byte of a frame gives the command back, whatever comes behind it.

**Proof sketch.** One case for each command. The fields that were written are found again by the
lemmas about addresses, keys and registers, and bytes of memory by their length in front of them. -/
lemma decodeTagged_encodeBody_append {c : Command} {body : Bytes} (hp : c.payload? = none)
    (h : c.encodeBody = .ok body) (rest : Bytes) :
    decodeTagged c.tag.byte c.tag (body ++ rest) = .value c (1 + body.length) := by
  cases c with
  | step | stepIgnoringBreakpoints | stop | requestDump | requestStack =>
    obtain rfl := Except.ok.inj h
    rfl
  | setBreakpoint address | clearBreakpoint address =>
    obtain ⟨high, low, rfl, ha⟩ := exists_of_encodeAddress h
    exact congrArg (fun a => Decoded.value _ 3) ha
  | inputString text => cases hp
  | inputKey key =>
    obtain ⟨code, hk, rfl⟩ := exists_of_map_eq_ok h
    obtain ⟨hsupported, hkey⟩ := exists_of_encodeKey hk
    simp only [tag, List.singleton_append, decodeTagged, if_pos hsupported, hkey,
      List.length_singleton]
  | requestMemory first limit =>
    obtain ⟨a, ha, h⟩ := exists_of_bind_eq_ok h
    obtain ⟨b, hb, h⟩ := exists_of_bind_eq_ok h
    obtain rfl := Except.ok.inj h
    obtain ⟨high, low, rfl, rfl⟩ := exists_of_encodeAddress ha
    obtain ⟨high', low', rfl, rfl⟩ := exists_of_encodeAddress hb
    rfl
  | setMemory address bytes =>
    obtain ⟨a, ha, h⟩ := exists_of_bind_eq_ok h
    split_ifs at h with hl
    obtain rfl := Except.ok.inj h
    obtain ⟨high, low, rfl, rfl⟩ := exists_of_encodeAddress ha
    have hlen : (UInt8.ofNat bytes.length).toNat = bytes.length := by
      rw [UInt8.toNat_ofNat']
      exact Nat.mod_eq_of_lt (Nat.lt_succ_of_le (Nat.le_of_not_lt hl))
    simp only [tag, List.cons_append, List.nil_append, decodeTagged, hlen, List.take_left,
      Nat.lt_irrefl, if_false, List.length_cons]
    congr 1
    omega
  | setRegister register value =>
    obtain ⟨r, rfl, ⟨b, hw, rfl, rfl⟩ | ⟨high, low, hw, rfl, rfl⟩⟩ := exists_of_encodeRegister h
    · simp only [tag, List.cons_append, List.nil_append, decodeTagged, Register.ofId?_id, if_pos hw]
      rfl
    · simp only [tag, List.cons_append, List.nil_append, decodeTagged, Register.ofId?_id, if_neg hw]
      rfl

/-- **One command** that is no string, in front of any bytes, comes back and takes its frame. -/
theorem decode_encode_append {c : Command} {bytes : Bytes} (hp : c.payload? = none)
    (h : c.encode = .ok bytes) (rest : Bytes) : decode (bytes ++ rest) = .value c bytes.length := by
  rw [encode_of_payload?_eq_none hp] at h
  obtain ⟨body, hb, rfl⟩ := exists_of_map_eq_ok h
  rw [List.cons_append, decode_tag_byte_cons, decodeTagged_encodeBody_append hp hb,
    List.length_cons, Nat.add_comm]

/-- What is read as the payload of a string is its text. -/
lemma decode_of_readFrom? {text : Utf16} {bytes payload : Bytes} {n : ℕ}
    (hb : bytes.head? = some (inputString text).tag.byte)
    (h : Chunk.readFrom? (inputString text).tag.byte bytes = some (payload, n)) :
    decode bytes = .value (inputString (Utf8.decode payload)) n := by
  rcases bytes with _ | ⟨first, rest⟩
  · cases hb
  · obtain rfl := Option.some.inj hb
    rw [decode_tag_byte_cons]
    simp only [tag, decodeTagged] at h ⊢
    rw [h]

/-- The decoder of commands and their encoder. -/
def codec : format.Codec chunked where
  encode := encode
  byte c := c.tag.byte
  payload? := payload?
  withPayload := withPayload
  head?_encode {c bytes} h := by
    cases hp : c.payload? with
    | none =>
      rw [encode_of_payload?_eq_none hp] at h
      obtain ⟨body, -, rfl⟩ := exists_of_map_eq_ok h
      rfl
    | some payload =>
      match c, hp with
      | inputString text, _ =>
        obtain rfl := Except.ok.inj h
        have hh :=
          Chunk.head?_encode_append (inputString text).tag.byte (Utf8.encode text.repaired) []
        rwa [List.append_nil] at hh
  isSome_payload? c := by
    rw [chunked, CommandTag.ofByte?_byte]
    cases c <;> rfl
  encode_of_payload {c payload} h := by
    match c, h with
    | inputString text, h =>
      obtain rfl := Option.some.inj h
      rfl
  decode_of_payload {c bytes payload n} hc hb h := by
    rw [chunked, CommandTag.ofByte?_byte] at hc
    match c, hc with
    | inputString text, _ => exact decode_of_readFrom? hb h
  decode_append {c bytes} hp h rest := decode_encode_append hp h rest

/-- The frames of a command carry the command with its text repaired. -/
lemma codec_carried : codec.carried = carried := by
  funext c
  cases c with
  | inputString text =>
    show inputString (Utf8.decode (Utf8.encode text.repaired)) = inputString text.repaired
    rw [Utf8.decode_encode]
  | _ => rfl

/-- A command that is no string is carried as it is. -/
lemma carried_of_payload?_eq_none {c : Command} (h : c.payload? = none) : c.carried = c := by
  cases c with
  | inputString text => cases h
  | _ => rfl

/-- A string of characters is carried as it is. -/
@[simp]
lemma carried_inputString (s : String) : (inputString s).carried = inputString s := by
  rw [carried, Utf16.repaired_ofString]

/-- A command and what its frames carry have the same frames. -/
@[simp]
lemma encode_carried (c : Command) : c.carried.encode = c.encode := by
  cases c with
  | inputString text => rw [carried, encode, encode, Utf16.repaired_ofString, tag, tag]
  | _ => rfl

/-! ## Runs of strings -/

/-- The repaired text of a string that is given; the other commands have none. -/
def text : Command → String
  | inputString text => text.repaired
  | _ => ""

/-- Whether a command goes on in the next one: both give a string, and the first one has bytes, a
multiple of 255 of them. -/
def runsInto : Command → Command → Bool
  | inputString text, inputString _ => Chunk.EndsFull (Utf8.encode text.repaired)
  | _, _ => false

/-- The commands that a run comes back as: strings as one with their repaired texts in a row, and
any other command as itself. -/
def joined : List Command → List Command
  | inputString first :: run =>
    [inputString ((first.repaired :: run.map text).foldr (· ++ ·) "" : String)]
  | run => run

/-- The commands that come back: each longest run of commands that go on in the next one as one
command. -/
def merged (cs : List Command) : List Command := (cs.splitBy runsInto).flatMap joined

/-- Going on in the next command, by the frames. -/
lemma codec_runsInto : codec.runsInto = runsInto := by
  funext c d
  match c with
  | inputString _ => cases d <;> rfl
  | step | stepIgnoringBreakpoints | stop | setBreakpoint _ | clearBreakpoint _ | requestDump
  | inputKey _
  | requestMemory .. | requestStack | setMemory .. | setRegister .. => exact Bool.and_false _

/-- The bytes of texts in a row are read as those texts.

**Proof sketch.** Induction on the commands. A string has its text in front, repaired, which is
whole characters; every other command has no payload. -/
lemma decode_flatMap_payload (cs : List Command) :
    Utf8.decode (cs.flatMap codec.payload) = (cs.map text).foldr (· ++ ·) "" := by
  induction cs with
  | nil => rfl
  | cons c cs ih =>
    rw [List.flatMap_cons, List.map_cons, List.foldr_cons, ← ih]
    match c with
    | inputString t => exact Utf8.decode_encode_append t.repaired _
    | step | stepIgnoringBreakpoints | stop | setBreakpoint _ | clearBreakpoint _ | requestDump
    | inputKey _
    | requestMemory .. | requestStack | setMemory .. | setRegister .. =>
      exact String.empty_append.symm

/-- What a run comes back as, by the frames, is one string if there are strings in it, and the
command itself otherwise.

**Proof sketch.** By the first command of the run. For a string the texts are joined, by
`decode_flatMap_payload`. -/
lemma codec_united : codec.united = joined := by
  funext run
  match run with
  | [] => rfl
  | inputString first :: run =>
    exact congrArg (fun t : String =>
      [inputString t]) (decode_flatMap_payload (inputString first :: run))
  | step :: _ | stepIgnoringBreakpoints :: _ | stop :: _ | setBreakpoint _ :: _
  | clearBreakpoint _ :: _
  | requestDump :: _ | inputKey _ :: _ | requestMemory .. :: _ | requestStack :: _
  | setMemory .. :: _
  | setRegister .. :: _ => rfl

/-- The commands that come back, by the frames, are those that were merged as commands. -/
lemma codec_merged (cs : List Command) : codec.merged cs = merged cs := by
  rw [Format.Codec.merged, codec_runsInto, codec_united, merged]

end Command

/-! ## Scripts -/

namespace Script

/-- The stream of a script is that of its commands. -/
lemma encode_eq_encodeAll (cs : Script) : cs.encode = Command.codec.encodeAll cs := by
  induction cs with
  | nil => rfl
  | cons c cs ih =>
    rw [encode, Format.Codec.encodeAll, ih]
    rfl

/-- **Scripts read back**: if every command of a list can be encoded, the list has a stream, and all
that a reader gives of it, pushed whole, are the commands that the list comes back as, with no bytes
left. A string of characters comes back with its own text; one that has surrogates without partners
has them repaired.

**Proof sketch.** Commands are a codec (`Command.codec`), and for every codec the frames of a list
are drained run by run, by `drain_encodeAll`. What a run of commands comes back as is
`Command.codec_merged`. -/
theorem drain_encode (cs : List Command) (h : ∀ c ∈ cs, ∃ bytes, c.encode = .ok bytes) :
    ∃ stream, Script.encode cs = .ok stream ∧
      (Reader.empty.push stream).drain Command.format =
        ((Command.merged cs).map .value, Reader.empty) := by
  obtain ⟨stream, hs⟩ := Command.codec.exists_encodeAll h
  refine ⟨stream, (encode_eq_encodeAll cs).trans hs, ?_⟩
  rw [← Command.codec_merged]
  exact Command.codec.drain_encodeAll hs

/-- Two strings of which the first ends full and the second is empty, and a third one behind them.
-/
lemma merged_of_endsFull {first : String} (h : Chunk.EndsFull (Utf8.encode first)) :
    Command.merged [.inputString first, .inputString "", .inputString "b", .step] =
      [.inputString first, .inputString "b", .step] := by
  have hempty : ¬ Chunk.EndsFull (Utf8.encode "") := fun h => h.1 rfl
  simp [Command.merged, List.splitBy, List.splitBy.loop, Command.runsInto, h, hempty,
    Command.joined, Command.text]

/-- A string of as many bytes as a frame carries ends full. -/
lemma endsFull_replicate :
    Chunk.EndsFull (Utf8.encode (String.ofList (List.replicate Chunk.maxSize 'a'))) := by
  have he (n : ℕ) : Utf8.encode (String.ofList (List.replicate n 'a')) = List.replicate n 0x61 := by
    rw [Utf8.encode, String.toList_ofList]
    induction n with
    | zero => rfl
    | succ n ih => exact congrArg (0x61 :: ·) ih
  rw [he]
  exact ⟨List.cons_ne_nil _ _, 1, by rw [List.length_replicate, Nat.mul_one]⟩

/-- A string of one full frame runs into the empty one behind it, which runs into none. -/
theorem drain_encode_of_full_string :
    ∃ stream,
      Script.encode [.inputString (String.ofList (List.replicate Chunk.maxSize 'a')),
        .inputString "", .inputString "b", .step] = .ok stream ∧
      (Reader.empty.push stream).drain Command.format =
        ([.value (.inputString (String.ofList (List.replicate Chunk.maxSize 'a'))),
          .value (.inputString "b"), .value .step], Reader.empty) := by
  have hc (first : String) :
      ∀ c ∈ [Command.inputString first, .inputString "", .inputString "b", .step],
      ∃ bytes, c.encode = .ok bytes := by
    simp only [List.mem_cons, List.not_mem_nil, or_false]
    rintro c (rfl | rfl | rfl | rfl) <;> exact ⟨_, rfl⟩
  obtain ⟨stream, hs, hd⟩ := drain_encode _ (hc (String.ofList (List.replicate Chunk.maxSize 'a')))
  rw [merged_of_endsFull endsFull_replicate] at hd
  exact ⟨stream, hs, hd⟩

end Script

end DebugWire
