import DebugWire.Proofs.Text.Utf8
import DebugWire.Proofs.Wire.Codec
import DebugWire.Proofs.Wire.Extension
import DebugWire.Proofs.Wire.Fields

set_option relaxedAutoImplicit false
set_option autoImplicit false

/-!
# Events written and read

The frames of events one behind the other give the events back, one for one, except that an event
whose last frame is full goes on in one of the same kind that comes next. The events of such a run
come back as one, with their texts or their bytes in a row.

## Main definitions

* `DebugWire.Event.codec` — the decoder of events and their encoder.
* `DebugWire.Event.runsInto` — an event that goes on in the next one.
* `DebugWire.Event.merged` — the events that come back.

## Main results

* `DebugWire.Event.decode_encode_append` — one event without a payload, in front of any bytes.
* `DebugWire.Event.drain_flatten` — all that the frames of events give.
-/

namespace DebugWire

/-- Whether a kind of event carries text. -/
def EventTag.isText : EventTag → Bool
  | output | errorOutput | dumpResult => true
  | _ => false

namespace Event

/-! ## One event -/

/-- An event with the payload of other bytes in its place; the events without a payload stay. -/
def withPayload (e : Event) (payload : Bytes) : Event :=
  match e with
  | output _ => output (Utf8.decode payload)
  | errorOutput _ => errorOutput (Utf8.decode payload)
  | dumpResult _ => dumpResult (Utf8.decode payload)
  | memoryResult _ => memoryResult payload
  | stackResult _ => stackResult payload
  | e => e

/-- The events with a payload are those of a chunked kind. -/
lemma isSome_payload? (e : Event) : e.payload?.isSome = e.tag.isChunked := by
  cases e <;> rfl

/-- An event has its own payload, and putting that into it changes nothing. -/
lemma withPayload_self {e : Event} {payload : Bytes} (h : e.payload? = some payload) :
    e.withPayload payload = e := by
  cases e with
  | output text | errorOutput text | dumpResult text =>
    obtain rfl := Option.some.inj h
    simp only [withPayload, Utf8.decode_encode]
  | memoryResult bytes | stackResult bytes =>
    obtain rfl := Option.some.inj h
    rfl
  | breakpointHit | keyRequested | stringRequested | endOfProgram | crashed => cases h

/-- A payload is written as its frames, with the byte of the event in each. -/
lemma encode_of_payload {e : Event} {payload : Bytes} (h : e.payload? = some payload) :
    e.encode = .ok (Chunk.encode e.tag.byte payload) := by
  cases e with
  | output | errorOutput | dumpResult | memoryResult | stackResult =>
    obtain rfl := Option.some.inj h
    rfl
  | breakpointHit | keyRequested | stringRequested | endOfProgram | crashed => cases h

/-- The event at the front of bytes is that of its first byte. -/
lemma decode_tag_byte_cons (tag : EventTag) (rest : Bytes) :
    decode (tag.byte :: rest) = decodeTagged tag.byte tag rest := by
  rw [decode, EventTag.ofByte?_byte]

/-- The frame of an event without a payload: its byte, and an address behind that of a breakpoint.

**Proof sketch.** Events without fields are their byte alone. The address of a breakpoint has
sixteen bits, since it was written, and two bytes give it back. -/
lemma exists_of_encode {e : Event} {bytes : Bytes} (hp : e.payload? = none)
    (h : e.encode = .ok bytes) :
    ∃ body, bytes = e.tag.byte :: body ∧
      ∀ rest, decodeTagged e.tag.byte e.tag (body ++ rest) = .value e (1 + body.length) := by
  cases e with
  | output | errorOutput | dumpResult | memoryResult | stackResult => cases hp
  | keyRequested | stringRequested | endOfProgram | crashed =>
    obtain rfl := Except.ok.inj h
    exact ⟨[], rfl, fun _ => rfl⟩
  | breakpointHit address =>
    simp only [encode, payload?] at h
    cases hw : address.within? 0xffff with
    | none =>
      rw [hw] at h
      cases h
    | some n =>
      rw [hw] at h
      obtain rfl := Except.ok.inj h
      refine ⟨bytes16 n, rfl, fun rest => ?_⟩
      have ha : number16 (UInt8.ofNat (n / 256)) (UInt8.ofNat (n % 256)) = address := by
        rw [number16_bytes16 (Number.le_of_within? hw), Number.eq_of_within? hw]
      exact congrArg (fun a => Decoded.value (breakpointHit a) 3) ha

/-- **One event** without a payload, in front of any bytes, comes back and takes its frame. -/
theorem decode_encode_append {e : Event} {bytes : Bytes} (hp : e.payload? = none)
    (h : e.encode = .ok bytes) (rest : Bytes) : decode (bytes ++ rest) = .value e bytes.length := by
  obtain ⟨body, rfl, hb⟩ := exists_of_encode hp h
  rw [List.cons_append, decode_tag_byte_cons, hb, List.length_cons, Nat.add_comm]

/-- What is read as the payload of an event is put into it.

**Proof sketch.** The first byte is that of the event, and its kind is read in chunks. So what is
read becomes its payload. -/
lemma decode_of_readFrom? {e : Event} {bytes payload : Bytes} {n : ℕ} (hc : e.tag.isChunked = true)
    (hb : bytes.head? = some e.tag.byte)
    (h : Chunk.readFrom? e.tag.byte bytes = some (payload, n)) :
    decode bytes = .value (e.withPayload payload) n := by
  rcases bytes with _ | ⟨first, rest⟩
  · cases hb
  · obtain rfl := Option.some.inj hb
    rw [decode_tag_byte_cons]
    cases e with
    | output | errorOutput | dumpResult | memoryResult | stackResult =>
      simp only [tag] at h
      simp only [tag, decodeTagged, decodeChunked, h, withPayload]
    | breakpointHit | keyRequested | stringRequested | endOfProgram | crashed => cases hc

/-- The decoder of events and their encoder. -/
def codec : format.Codec chunked where
  encode := encode
  byte e := e.tag.byte
  payload? := payload?
  withPayload := withPayload
  head?_encode {e bytes} h := by
    cases hp : e.payload? with
    | none =>
      obtain ⟨body, rfl, -⟩ := exists_of_encode hp h
      rfl
    | some payload =>
      obtain rfl := Except.ok.inj ((encode_of_payload hp).symm.trans h)
      have hh := Chunk.head?_encode_append e.tag.byte payload []
      rwa [List.append_nil] at hh
  isSome_payload? e := by
    rw [chunked, EventTag.ofByte?_byte, isSome_payload?]
    rfl
  encode_of_payload := encode_of_payload
  decode_of_payload {e bytes payload n} hc hb h := by
    rw [chunked, EventTag.ofByte?_byte] at hc
    exact decode_of_readFrom? hc hb h
  decode_append := decode_encode_append

/-- The frames of an event carry the event itself. -/
lemma codec_carried (e : Event) : codec.carried e = e := by
  cases hp : codec.payload? e with
  | none => exact codec.carried_of_eq_none hp
  | some payload =>
    rw [Format.Codec.carried, hp]
    exact withPayload_self hp

/-! ## Runs of events -/

/-- The text that an event carries; an event of another kind carries none. -/
def text : Event → String
  | output text | errorOutput text | dumpResult text => text
  | _ => ""

/-- The bytes that an event carries; an event of another kind carries none. -/
def bytes : Event → Bytes
  | memoryResult bytes | stackResult bytes => bytes
  | _ => []

/-- Whether an event goes on in the next one: both are of one kind, and the payload of the first one
has bytes, a multiple of 255 of them. -/
def runsInto (e f : Event) : Bool := decide (e.tag = f.tag) && e.payload?.any fun p =>
    Chunk.EndsFull p

/-- The events that a run comes back as: those of a chunked kind as one with their texts or their
bytes in a row, and any other event as itself. -/
def joined : List Event → List Event
  | output first :: run => [output ((first :: run.map text).foldr (· ++ ·) "")]
  | errorOutput first :: run => [errorOutput ((first :: run.map text).foldr (· ++ ·) "")]
  | dumpResult first :: run => [dumpResult ((first :: run.map text).foldr (· ++ ·) "")]
  | memoryResult first :: run => [memoryResult (first ++ run.flatMap bytes)]
  | stackResult first :: run => [stackResult (first ++ run.flatMap bytes)]
  | run => run

/-- The events that come back: each longest run of events that go on in the next one as one event.
-/
def merged (es : List Event) : List Event := (es.splitBy runsInto).flatMap joined

/-- Going on in the next event, by the frames.

**Proof sketch.** The bytes of two kinds are the same only if the kinds are, and a payload that is
not there ends with no full frame. -/
lemma codec_runsInto : codec.runsInto = runsInto := by
  funext e f
  have hb : (e.tag.byte == f.tag.byte) = decide (e.tag = f.tag) := by
    rw [Bool.eq_iff_iff, beq_iff_eq, decide_eq_true_iff]
    refine ⟨fun h => ?_, congrArg EventTag.byte⟩
    exact Option.some.inj ((EventTag.ofByte?_byte _).symm.trans (h ▸ EventTag.ofByte?_byte _))
  have hp : decide (Chunk.EndsFull (codec.payload e)) = e.payload?.any fun p =>
    Chunk.EndsFull p := by
    rw [Format.Codec.payload]
    change decide (Chunk.EndsFull (e.payload?.getD [])) = _
    cases e.payload? with
    | some p => rfl
    | none => exact decide_eq_false fun h => h.1 rfl
  exact congrArg₂ (· && ·) hb hp

/-- All events of a run are of one kind.

**Proof sketch.** Induction on the run: each event runs into the next only if both are of one kind.
-/
lemma tag_eq_of_isChain {e : Event} {run : List Event}
    (h : (e :: run).IsChain fun a b => runsInto a b = true) : ∀ f ∈ e :: run, f.tag = e.tag := by
  induction run generalizing e with
  | nil =>
    intro f hf
    rw [List.mem_singleton.1 hf]
  | cons f run ih =>
    obtain ⟨hef, hc⟩ := List.isChain_cons_cons.1 h
    rw [runsInto, Bool.and_eq_true, decide_eq_true_eq] at hef
    intro g hg
    rcases List.mem_cons.1 hg with rfl | hg
    · rfl
    · exact (ih hc g hg).trans hef.1.symm

/-- The payload of an event of text is its text. -/
lemma payload_eq_encode_text {e : Event} (h : e.tag.isText = true) :
    codec.payload e = Utf8.encode e.text := by
  cases e <;> first | rfl | cases h

/-- The payload of any other event are its bytes. -/
lemma payload_eq_bytes {e : Event} (h : e.tag.isText = false) : codec.payload e = e.bytes := by
  cases e <;> first | rfl | cases h

/-- The payloads of events of text in a row are read as those texts. -/
lemma decode_flatMap_payload {es : List Event} (h : ∀ e ∈ es, e.tag.isText = true) :
    Utf8.decode (es.flatMap codec.payload) = (es.map text).foldr (· ++ ·) "" := by
  induction es with
  | nil => rfl
  | cons e es ih =>
    rw [List.flatMap_cons, List.map_cons, List.foldr_cons,
      payload_eq_encode_text (h e List.mem_cons_self),
      Utf8.decode_encode_append, ih fun f hf => h f (List.mem_cons_of_mem e hf)]

/-- The payloads of other events in a row are their bytes. -/
lemma flatMap_payload {es : List Event} (h : ∀ e ∈ es, e.tag.isText = false) :
    es.flatMap codec.payload = es.flatMap bytes :=
  List.flatMap_congr fun e he => payload_eq_bytes (h e he)

/-- What a run comes back as, by the frames.

**Proof sketch.** All events of a run are of one kind, so either each has a text or each has bytes,
and the payloads are put behind each other. -/
lemma codec_united {run : List Event} (h : run.IsChain fun a b => runsInto a b = true) :
    codec.united run = joined run := by
  rcases run with _ | ⟨e, run⟩
  · rfl
  · have ht := tag_eq_of_isChain h
    have htext (he : e.tag.isText = true) :=
      decode_flatMap_payload fun f hf => (congrArg EventTag.isText (ht f hf)).trans he
    have hbytes (he : e.tag.isText = false) :=
      flatMap_payload fun f hf => (congrArg EventTag.isText (ht f hf)).trans he
    cases e with
    | output first => exact congrArg (fun t => [output t]) (htext rfl)
    | errorOutput first => exact congrArg (fun t => [errorOutput t]) (htext rfl)
    | dumpResult first => exact congrArg (fun t => [dumpResult t]) (htext rfl)
    | memoryResult first => exact congrArg (fun p => [memoryResult p]) (hbytes rfl)
    | stackResult first => exact congrArg (fun p => [stackResult p]) (hbytes rfl)
    | breakpointHit | keyRequested | stringRequested | endOfProgram | crashed => rfl

/-- The events that come back, by the frames, are those that were merged as events. -/
lemma codec_merged (es : List Event) : codec.merged es = merged es := by
  rw [Format.Codec.merged, merged, codec_runsInto]
  refine List.flatMap_congr fun run hrun => codec_united ?_
  exact List.isChain_of_mem_splitBy hrun

/-! ## Frames one behind the other -/

/-- The stream of events is made of their frames. -/
lemma encodeAll_of_map_encode {es : List Event} {frames : List Bytes}
    (h : es.map encode = frames.map .ok) : codec.encodeAll es = .ok frames.flatten := by
  induction es generalizing frames with
  | nil =>
    obtain rfl := List.map_eq_nil_iff.1 h.symm
    rfl
  | cons e es ih =>
    obtain ⟨bytes, rest, rfl, he, hr⟩ := List.map_eq_cons_iff.1 h.symm
    exact codec.encodeAll_cons_eq_ok.2 ⟨bytes, rest.flatten, he.symm, ih hr.symm, List.flatten_cons⟩

/-- **Events read back**: if every event of a list can be encoded, all that a reader gives of their
frames, pushed whole, are the events that the list comes back as, with no bytes left.

**Proof sketch.** As for commands: events are a codec, so `drain_encodeAll` applies, and
`codec_merged` says what their runs come back as. -/
theorem drain_flatten {es : List Event} {frames : List Bytes} (h : es.map encode = frames.map .ok) :
    (Reader.empty.push frames.flatten).drain format = ((merged es).map .value, .empty) := by
  rw [← codec_merged]
  exact codec.drain_encodeAll (encodeAll_of_map_encode h)

/-- Two dumps of memory of which the first is one full frame, a breakpoint, and two dumps of the
stack of which the first is short. -/
theorem drain_flatten_of_full_memory :
    [memoryResult (List.replicate 255 7), memoryResult [1, 2], breakpointHit 258, stackResult [3],
        stackResult [4]].map encode =
      [0x6d :: 255 :: List.replicate 255 7, [0x6d, 2, 1, 2], [0x68, 1, 2], [0x73, 1, 3],
        [0x73, 1, 4]].map .ok ∧
    (Reader.empty.push [0x6d :: 255 :: List.replicate 255 7, [0x6d, 2, 1, 2], [0x68, 1, 2],
        [0x73, 1, 3], [0x73, 1, 4]].flatten).drain format =
      ([memoryResult (List.replicate 255 7 ++ [1, 2]), breakpointHit 258, stackResult [3],
        stackResult [4]].map .value, .empty) := by
  have h : [memoryResult (List.replicate 255 7), memoryResult [1, 2], breakpointHit 258,
        stackResult [3], stackResult [4]].map encode =
      [0x6d :: 255 :: List.replicate 255 7, [0x6d, 2, 1, 2], [0x68, 1, 2], [0x73, 1, 3],
        [0x73, 1, 4]].map .ok := by
    decide +kernel
  have hm :
        merged [memoryResult (List.replicate 255 7), memoryResult [1, 2], breakpointHit 258,
          stackResult [3],
        stackResult [4]] =
      [memoryResult (List.replicate 255 7 ++ [1, 2]), breakpointHit 258, stackResult [3],
        stackResult [4]] := by
    decide +kernel
  refine ⟨h, ?_⟩
  rw [drain_flatten h, hm]

end Event

end DebugWire
