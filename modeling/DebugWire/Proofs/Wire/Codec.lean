import DebugWire.Fault
import DebugWire.Proofs.Wire.Chunk
import DebugWire.Proofs.Wire.Drain
import Mathlib.Data.List.SplitBy
import Mathlib.Tactic.SplitIfs

set_option relaxedAutoImplicit false
set_option autoImplicit false

/-!
# Values written one after the other

A stream that an encoder has written gives back what its frames carry, one for one, with one
exception that lies in the format. Nothing marks the end of a chunked payload whose last frame is
full, so a payload of the same kind right behind it is taken for more of it. The values of such a
*run* come back as one.

## Main definitions

* `DebugWire.Format.Codec` — a decoder together with the encoder that it undoes.
* `DebugWire.Format.Codec.carried` — the value that the frames of a value carry.
* `DebugWire.Format.Codec.runsInto` — a value that goes on in the next one.
* `DebugWire.Format.Codec.united` — the value that a run comes back as.
* `DebugWire.Format.Codec.encodeAll` — the stream of a list of values.
* `DebugWire.Format.ofChunk?` — the one value that a chunk holds.

## Main results

* `DebugWire.Format.Codec.decode_run` — a run in front of any bytes.
* `DebugWire.Format.Codec.drain_encodeAll` — all that a stream gives.
-/

namespace DebugWire

/-- A decoder together with the encoder of its values, and the laws by which it undoes that encoder.
The first byte of a frame says whether it is chunked. -/
structure Format.Codec {α : Type} (f : Format α) (chunked : UInt8 → Bool) where
  /-- The frames of a value. -/
  encode : α → Except Fault Bytes
  /-- The first byte of its frames. -/
  byte : α → UInt8
  /-- The payload of a value, if it is chunked. -/
  payload? : α → Option Bytes
  /-- The value of the same kind with another payload. -/
  withPayload : α → Bytes → α
  /-- Frames begin with the byte of the value. -/
  head?_encode : ∀ {a : α} {bytes : Bytes}, encode a = .ok bytes → bytes.head? = some (byte a)
  /-- The values with a payload are those whose frames are chunked. -/
  isSome_payload? : ∀ a : α, (payload? a).isSome = chunked (byte a)
  /-- A payload is written as its frames. -/
  encode_of_payload : ∀ {a : α} {payload : Bytes}, payload? a = some payload →
    encode a = .ok (Chunk.encode (byte a) payload)
  /-- What is read behind a byte of chunked frames is the payload of the value. -/
  decode_of_payload : ∀ {a : α} {bytes payload : Bytes} {n : ℕ}, chunked (byte a) = true →
    bytes.head? = some (byte a) → Chunk.readFrom? (byte a) bytes = some (payload, n) →
    f.decode bytes = .value (withPayload a payload) n
  /-- The frame of a value without a payload gives that value back, whatever follows. -/
  decode_append : ∀ {a : α} {bytes : Bytes}, payload? a = none → encode a = .ok bytes →
    ∀ rest, f.decode (bytes ++ rest) = .value a bytes.length

namespace Format.Codec

variable {α : Type} {f : Format α} {chunked : UInt8 → Bool} (codec : f.Codec chunked)

/-! ## Streams of values -/

/-- The frames of all values; the first that cannot be encoded is the fault. -/
def encodeAll : List α → Except Fault Bytes
  | [] => .ok []
  | a :: as =>
    match codec.encode a with
    | .error f => .error f
    | .ok bytes => (encodeAll as).map (bytes ++ ·)

/-- The stream of a value and others is that of the value in front of that of the others. -/
lemma encodeAll_cons_eq_ok {a : α} {as : List α} {stream : Bytes} :
    codec.encodeAll (a :: as) = .ok stream ↔
      ∃ bytes rest, codec.encode a = .ok bytes ∧ codec.encodeAll as = .ok rest ∧
        stream = bytes ++ rest := by
  rw [encodeAll]
  cases codec.encode a with
  | error f => simp
  | ok bytes =>
    cases codec.encodeAll as with
    | error f => simp [Except.map]
    | ok rest => simp [Except.map, eq_comm]

/-- Streams one behind the other: the first values and the others can be written together exactly if
they can by themselves.

**Proof sketch.** Induction on the first values, where the stream of the first one stands in front
on both sides. -/
lemma encodeAll_append_eq_ok {as bs : List α} {stream : Bytes} :
    codec.encodeAll (as ++ bs) = .ok stream ↔
      ∃ bytes rest, codec.encodeAll as = .ok bytes ∧ codec.encodeAll bs = .ok rest ∧
        stream = bytes ++ rest := by
  induction as generalizing stream with
  | nil => simp [encodeAll, eq_comm]
  | cons a as ih =>
    simp only [List.cons_append, encodeAll_cons_eq_ok, ih]
    constructor
    · rintro ⟨b, _, hb, ⟨c, d, hc, hd, rfl⟩, rfl⟩
      exact ⟨b ++ c, d, ⟨b, c, hb, hc, rfl⟩, hd, (List.append_assoc ..).symm⟩
    · rintro ⟨_, d, ⟨b, c, hb, hc, rfl⟩, hd, rfl⟩
      exact ⟨b, c ++ d, hb, ⟨c, d, hc, hd, rfl⟩, List.append_assoc ..⟩

/-- A stream begins with the byte of the first value. -/
lemma head?_encodeAll_append {as : List α} {stream : Bytes} (h : codec.encodeAll as = .ok stream) :
    stream.head? = as.head?.map codec.byte := by
  cases as with
  | nil =>
    obtain rfl : [] = stream := Except.ok.inj h
    rfl
  | cons a as =>
    obtain ⟨bytes, rest, hb, -, rfl⟩ := codec.encodeAll_cons_eq_ok.1 h
    rw [List.head?_append, codec.head?_encode hb]
    rfl

/-- If every value can be encoded, so can the list. -/
lemma exists_encodeAll {as : List α} (h : ∀ a ∈ as, ∃ bytes, codec.encode a = .ok bytes) :
    ∃ stream, codec.encodeAll as = .ok stream := by
  induction as with
  | nil => exact ⟨[], rfl⟩
  | cons a as ih =>
    obtain ⟨bytes, hb⟩ := h a List.mem_cons_self
    obtain ⟨rest, hr⟩ := ih fun b hb => h b (List.mem_cons_of_mem a hb)
    exact ⟨bytes ++ rest, codec.encodeAll_cons_eq_ok.2 ⟨bytes, rest, hb, hr, rfl⟩⟩

/-! ## Runs -/

/-- The payload of a value; a value that has none counts as one without bytes. -/
def payload (a : α) : Bytes := (codec.payload? a).getD []

/-- The value that the frames of a value carry: that of its payload, or itself if it has none. -/
def carried (a : α) : α :=
  match codec.payload? a with
  | some payload => codec.withPayload a payload
  | none => a

/-- A value with a payload is carried by it. -/
lemma carried_of_isSome {a : α} (h : (codec.payload? a).isSome = true) :
    codec.carried a = codec.withPayload a (codec.payload a) := by
  rw [carried, payload]
  cases hp : codec.payload? a with
  | some payload => rfl
  | none => rw [hp] at h; cases h

/-- A value without a payload is carried as it is. -/
lemma carried_of_eq_none {a : α} (h : codec.payload? a = none) : codec.carried a = a := by
  rw [carried, h]

/-- Whether a value goes on in one that is written right behind it: its last frame is full, and the
next frame has its byte. -/
def runsInto (a b : α) : Bool :=
  codec.byte a == codec.byte b && decide (Chunk.EndsFull (codec.payload a))

/-- The value that the values of a run come back as. A run without payloads has one value, which
stays. -/
def united : List α → List α
  | a :: run =>
    if (codec.payload? a).isSome then [codec.withPayload a ((a :: run).flatMap codec.payload)]
    else a :: run
  | [] => []

/-- The values that come back: each run as one. -/
def merged (as : List α) : List α := (as.splitBy codec.runsInto).flatMap codec.united

/-- What follows a list of values does not go on from the last of them. -/
def Stops (as : List α) (rest : Bytes) : Prop :=
  ∀ a ∈ as.getLast?, Chunk.EndsFull (codec.payload a) → rest.head? ≠ some (codec.byte a)

/-- A value goes on in the next one exactly if it ends full and has the same byte. -/
lemma runsInto_iff {a b : α} :
    codec.runsInto a b = true ↔ codec.byte a = codec.byte b ∧ Chunk.EndsFull (codec.payload a) := by
  rw [runsInto, Bool.and_eq_true, beq_iff_eq, decide_eq_true_eq]

/-- Only a payload ends full, so a value without one does not. -/
lemma isSome_of_endsFull {a : α} (h : Chunk.EndsFull (codec.payload a)) :
    (codec.payload? a).isSome = true := by
  cases hp : codec.payload? a with
  | some p => rfl
  | none =>
    rw [payload, hp] at h
    exact absurd rfl h.1

/-- The payload that a value has is the one that is taken for it. -/
lemma payload?_eq_some {a : α} (h : (codec.payload? a).isSome = true) :
    codec.payload? a = some (codec.payload a) := by
  obtain ⟨p, hp⟩ := Option.isSome_iff_exists.1 h
  rw [payload, hp]
  rfl

/-- The frames of a value with a payload are those of the payload. -/
lemma eq_chunkEncode {a : α} {bytes : Bytes} (hp : (codec.payload? a).isSome = true)
    (he : codec.encode a = .ok bytes) : bytes = Chunk.encode (codec.byte a) (codec.payload a) :=
  Except.ok.inj (he.symm.trans (codec.encode_of_payload (codec.payload?_eq_some hp)))

/-- The frames of a payload in front of any bytes. -/
lemma readFrom?_append {a : α} {bytes : Bytes} (hp : (codec.payload? a).isSome = true)
    (he : codec.encode a = .ok bytes) (rest : Bytes) :
    Chunk.readFrom? (codec.byte a) (bytes ++ rest) =
      if Chunk.EndsFull (codec.payload a) ∧ rest.head? = some (codec.byte a) then
        (Chunk.readFrom? (codec.byte a) rest).map fun r =>
          (codec.payload a ++ r.1, bytes.length + r.2)
      else some (codec.payload a, bytes.length) := by
  rw [codec.eq_chunkEncode hp he, Chunk.readFrom?_encode_append]

/-- The frames of a run of payloads are read as one payload, if what follows does not go on from it.

**Proof sketch.** Induction on the run. The frames of the first value end full, and the next value
has the same byte, so reading goes on there. The frames of the last one are read as its payload. -/
lemma readFrom?_run {a : α} {run : List α} {stream rest : Bytes}
    (hp : (codec.payload? a).isSome = true)
    (hc : (a :: run).IsChain fun a b => codec.runsInto a b = true)
    (he : codec.encodeAll (a :: run) = .ok stream) (hs : codec.Stops (a :: run) rest) :
    Chunk.readFrom? (codec.byte a) (stream ++ rest) =
      some ((a :: run).flatMap codec.payload, stream.length) := by
  induction run generalizing a stream with
  | nil =>
    obtain ⟨bytes, more, hb, hm, rfl⟩ := codec.encodeAll_cons_eq_ok.1 he
    obtain rfl : [] = more := Except.ok.inj hm
    rw [List.append_nil, codec.readFrom?_append hp hb, if_neg fun h => hs a rfl h.1 h.2,
      List.flatMap_singleton]
  | cons b run ih =>
    obtain ⟨bytes, more, hb, hm, rfl⟩ := codec.encodeAll_cons_eq_ok.1 he
    obtain ⟨hab, hc⟩ := List.isChain_cons_cons.1 hc
    obtain ⟨hbyte, hfull⟩ := codec.runsInto_iff.1 hab
    have hpb : (codec.payload? b).isSome = true := by
      rw [codec.isSome_payload?, ← hbyte, ← codec.isSome_payload?, hp]
    have hhead : (more ++ rest).head? = some (codec.byte a) := by
      rw [List.head?_append, codec.head?_encodeAll_append hm, hbyte]
      rfl
    have ih := ih hpb hc hm hs
    rw [List.append_assoc, codec.readFrom?_append hp hb, if_pos ⟨hfull, hhead⟩, hbyte, ih,
      Option.map_some, List.length_append]
    rfl

/-- **A run** in front of any bytes that do not go on from it gives its one value, and takes its
frames.

**Proof sketch.** If the first value has a payload then so do all others of the run, and their
frames are read together. Otherwise it goes on in no other value, so it is the whole run, and is
decoded by itself. -/
theorem decode_run {run : List α} {stream rest : Bytes} (hne : run ≠ [])
    (hc : run.IsChain fun a b => codec.runsInto a b = true) (he : codec.encodeAll run = .ok stream)
    (hs : codec.Stops run rest) :
    ∃ a, codec.united run = [a] ∧ f.decode (stream ++ rest) = .value a stream.length := by
  rcases run with _ | ⟨a, run⟩
  · exact absurd rfl hne
  · have hhead : (stream ++ rest).head? = some (codec.byte a) := by
      rw [List.head?_append, codec.head?_encodeAll_append he]
      rfl
    by_cases hp : (codec.payload? a).isSome = true
    · refine ⟨_, if_pos hp, ?_⟩
      exact codec.decode_of_payload (codec.isSome_payload? a ▸ hp) hhead
        (codec.readFrom?_run hp hc he hs)
    · -- A value without a payload goes on in no other, so it is the whole run.
      have hrun : run = [] := by
        rcases run with _ | ⟨b, run⟩
        · rfl
        · have hfull := (codec.runsInto_iff.1 (List.isChain_cons_cons.1 hc).1).2
          exact absurd (codec.isSome_of_endsFull hfull) hp
      subst hrun
      obtain ⟨bytes, more, hb, hm, rfl⟩ := codec.encodeAll_cons_eq_ok.1 he
      obtain rfl : [] = more := Except.ok.inj hm
      refine ⟨a, if_neg hp, ?_⟩
      rw [List.append_nil]
      exact codec.decode_append (Option.not_isSome_iff_eq_none.1 hp) hb rest

/-! ## Lists of values -/

/-- The run of one value comes back as what its frames carry. -/
lemma united_singleton (a : α) : codec.united [a] = [codec.carried a] := by
  simp only [united, List.flatMap_singleton]
  split_ifs with hp
  · rw [codec.carried_of_isSome hp]
  · rw [codec.carried_of_eq_none (Option.not_isSome_iff_eq_none.1 hp)]

/-- The frames of a value that does not go on in what follows give what they carry, which takes
these frames. -/
lemma decode_encode_append {a : α} {bytes rest : Bytes} (he : codec.encode a = .ok bytes)
    (hs : codec.Stops [a] rest) :
    f.decode (bytes ++ rest) = .value (codec.carried a) bytes.length := by
  have hone : codec.encodeAll [a] = .ok bytes :=
    codec.encodeAll_cons_eq_ok.2 ⟨bytes, [], he, rfl, (List.append_nil bytes).symm⟩
  obtain ⟨b, hb, hd⟩ := codec.decode_run (List.cons_ne_nil a []) (.singleton a) hone hs
  rw [united_singleton] at hb
  rw [hd, (List.cons.inj hb).1]

/-- A list of values does not go on in the stream of values behind it if its last one does not go on
in the first of them. -/
lemma stops_of_encodeAll {as bs : List α} {stream : Bytes} (hb : codec.encodeAll bs = .ok stream)
    (h : ∀ a ∈ as.getLast?, ∀ b ∈ bs.head?, codec.runsInto a b = false) :
    codec.Stops as stream := by
  intro a ha hfull hhead
  rw [codec.head?_encodeAll_append hb, Option.map_eq_some_iff] at hhead
  obtain ⟨b, hb, hbyte⟩ := hhead
  have hab := codec.runsInto_iff.2 ⟨hbyte.symm, hfull⟩
  rw [h a ha b hb] at hab
  cases hab

/-- Values of which none goes on in the next one come back one for one, as their frames carry them.
-/
lemma merged_of_isChain {as : List α} (h : as.IsChain fun a b => codec.runsInto a b = false) :
    codec.merged as = as.map codec.carried := by
  have hsplit : as.splitBy codec.runsInto = as.map ([·]) := by
    refine List.splitBy_eq_iff.2 ⟨by simp [← List.flatMap_def], by simp, by simp, ?_⟩
    rw [List.isChain_map]
    exact h.imp fun a b hab => ⟨by simp, by simp, hab⟩
  rw [merged, hsplit, List.flatMap_map]
  simp only [united_singleton, List.map_eq_flatMap]

/-- The last element of a run and the first one behind it, when the runs are kept apart by a test.
-/
private lemma rel_of_isChain_runs {r : α → α → Bool} {run : List α} {runs : List (List α)}
    (h : (run :: runs).IsChain fun as bs => ∃ ha hb, r (as.getLast ha) (bs.head hb) = false) :
    ∀ a ∈ run.getLast?, ∀ b ∈ runs.flatten.head?, r a b = false := by
  intro a ha b hb
  rcases runs with _ | ⟨next, runs⟩
  · cases hb
  · obtain ⟨_, hn, hr⟩ := (List.isChain_cons_cons.1 h).1
    rw [List.flatten_cons, List.head?_append_of_ne_nil _ hn] at hb
    rwa [List.getLast_of_mem_getLast? ha, List.head_of_mem_head? hb] at hr

/-- **All that a stream gives** is what the values carry that it was made of, each run as one, and
no bytes are left.

**Proof sketch.** Induction on the runs. Each one is read as its value, since the next one begins
with a value that it does not go on in. -/
theorem drain_encodeAll {as : List α} {stream : Bytes} (h : codec.encodeAll as = .ok stream) :
    Reader.drain f ⟨stream⟩ = ((codec.merged as).map .value, ⟨[]⟩) := by
  obtain ⟨runs, hruns⟩ : ∃ runs, as.splitBy codec.runsInto = runs := ⟨_, rfl⟩
  obtain ⟨hflat, hne, hc, hsep⟩ := List.splitBy_eq_iff.1 hruns
  rw [merged, hruns]
  subst hflat
  clear hruns
  induction runs generalizing stream with
  | nil =>
    obtain rfl : [] = stream := Except.ok.inj h
    exact Reader.drain_nil f
  | cons run runs ih =>
    rw [List.flatten_cons] at h
    obtain ⟨bytes, rest, hb, hr, rfl⟩ := codec.encodeAll_append_eq_ok.1 h
    have ih := ih (fun hm => hne (List.mem_cons_of_mem run hm))
      (fun m hm => hc m (List.mem_cons_of_mem run hm)) hsep.tail hr
    have hs : codec.Stops run rest := codec.stops_of_encodeAll hr (rel_of_isChain_runs hsep)
    obtain ⟨a, hu, hd⟩ :=
      codec.decode_run (fun he => hne (he ▸ List.mem_cons_self)) (hc run List.mem_cons_self) hb hs
    rw [Reader.drain_of_value hd, List.drop_left, ih, List.flatMap_cons, hu]
    rfl

/-- The frames of one value give what they carry, and no bytes are left. -/
theorem drain_encode_single {a : α} {bytes : Bytes} (h : codec.encode a = .ok bytes) :
    Reader.drain f ⟨bytes⟩ = ([.value (codec.carried a)], ⟨[]⟩) := by
  have ha : codec.encodeAll [a] = .ok bytes :=
    codec.encodeAll_cons_eq_ok.2 ⟨bytes, [], h, rfl, (List.append_nil bytes).symm⟩
  rw [codec.drain_encodeAll ha, codec.merged_of_isChain (.singleton a)]
  rfl

end Format.Codec

/-! ## Chunks of one value -/

namespace Format

variable {α : Type} {f : Format α}

/-- The value that a chunk holds, if reading it gives that value and leaves nothing. -/
def ofChunk? (f : Format α) (chunk : Bytes) : Option α :=
  match Reader.drain f ⟨chunk⟩ with
  | ([.value a], ⟨[]⟩) => some a
  | _ => none

/-- Reading a chunk that holds one value gives it and leaves nothing. -/
lemma drain_of_ofChunk? {chunk : Bytes} {a : α} (h : f.ofChunk? chunk = some a) :
    Reader.drain f ⟨chunk⟩ = ([.value a], ⟨[]⟩) := by
  unfold ofChunk? at h
  split at h
  case h_1 b hd => rw [hd, Option.some.inj h]
  case h_2 => cases h

/-- The frames of one value are a chunk that holds what they carry. -/
lemma Codec.ofChunk?_encode {chunked : UInt8 → Bool} (codec : f.Codec chunked) {a : α}
    {bytes : Bytes}
    (h : codec.encode a = .ok bytes) : f.ofChunk? bytes = some (codec.carried a) := by
  rw [ofChunk?, codec.drain_encode_single h]

end Format

end DebugWire
