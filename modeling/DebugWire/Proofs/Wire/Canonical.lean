import DebugWire.Proofs.Wire.CommandStream
import DebugWire.Proofs.Wire.EventStream

set_option relaxedAutoImplicit false
set_option autoImplicit false

/-!
# Frames written again

A decoder accepts nothing that its encoder could not have meant: each value that it finds can be
written, and reading what is written gives the value back. Its frames are written as they were read,
with two exceptions. A payload may come with an empty frame behind its full ones, which is not
needed, and the bytes of a text need not be UTF-8, in which case replacement characters are written
for them.

## Main definitions

* `DebugWire.Chunk.Carries` — a payload in full frames and a last one.
* `DebugWire.Format.Loose` — frames that are not written as they are read.
* `DebugWire.Format.Codec.Accepts` — the laws of a decoder that accepts just what its encoder
  writes.

## Main results

* `DebugWire.Chunk.encode_eq_iff` — a payload written again.
* `DebugWire.Format.Codec.Accepts.written_again` — any value written again.
* `DebugWire.Command.accepts`, `DebugWire.Event.accepts` — both decoders obey the laws.
-/

namespace DebugWire

/-! ## Payloads -/

namespace Chunk

/-- Frames *carry* the pieces of a payload: full ones and a last one, which may be of any length up
to 255, each in one frame of the tag. -/
def Carries (tag : UInt8) (full : List Bytes) (last frames : Bytes) : Prop :=
  (∀ piece ∈ full, piece.length = maxSize) ∧ last.length ≤ maxSize ∧
    frames = full.flatMap (frame tag) ++ frame tag last

variable {tag : UInt8} {piece last frames bytes payload : Bytes} {full : List Bytes} {n : ℕ}

/-- A full frame may be put in front of frames that carry something, and they carry its piece as
well then. -/
lemma Carries.cons (h : Carries tag full last frames) (hp : piece.length = maxSize) :
    Carries tag (piece :: full) last (frame tag piece ++ frames) := by
  obtain ⟨hfull, hlast, rfl⟩ := h
  refine ⟨?_, hlast, by rw [List.flatMap_cons, List.append_assoc]⟩
  intro p hm
  rcases List.mem_cons.1 hm with rfl | hm
  · exact hp
  · exact hfull p hm

/-- The frames of several pieces are that of the first one and those of the others. -/
lemma Carries.exists_of_cons (h : Carries tag (piece :: full) last frames) :
    piece.length = maxSize ∧ ∃ others, Carries tag full last others ∧
      frames = frame tag piece ++ others := by
  obtain ⟨hfull, hlast, rfl⟩ := h
  refine ⟨hfull piece List.mem_cons_self, _,
    ⟨fun p hp => hfull p (List.mem_cons_of_mem piece hp), hlast, rfl⟩, ?_⟩
  rw [List.flatMap_cons, List.append_assoc]

/-- Frames that carry something begin with the tag, also if the piece is empty. -/
lemma Carries.head? (h : Carries tag full last frames) : frames.head? = some tag := by
  obtain ⟨-, -, rfl⟩ := h
  cases full <;> rfl

/-- What frames carry is read from them, whatever follows. Only if the last one is full and the tag
comes next, reading goes on.

**Proof sketch.** Induction on the full frames. Behind each of them the tag comes next, as another
frame follows, so its piece is read and reading goes on; the last frame is that of
`readFrom?_frame_append`. -/
lemma Carries.readFrom?_append (h : Carries tag full last frames) (rest : Bytes) :
    readFrom? tag (frames ++ rest) =
      if last.length = maxSize ∧ rest.head? = some tag then
        (readFrom? tag rest).map fun r => (full.flatten ++ last ++ r.1, frames.length + r.2)
      else some (full.flatten ++ last, frames.length) := by
  induction full generalizing frames with
  | nil =>
    obtain ⟨-, hlast, rfl⟩ := h
    exact readFrom?_frame_append tag tag rest hlast
  | cons piece full ih =>
    obtain ⟨hp, others, hothers, rfl⟩ := h.exists_of_cons
    have hhead : (others ++ rest).head? = some tag := by rw [List.head?_append, hothers.head?]; rfl
    rw [List.append_assoc, readFrom?_frame_append tag tag _ hp.le, if_pos ⟨hp, hhead⟩, ih hothers]
    split_ifs
    · rw [Option.map_map]
      congr 1
      funext r
      simp only [Function.comp_apply, List.flatten_cons, List.append_assoc, List.length_append,
        Nat.add_assoc]
    · rw [Option.map_some, List.flatten_cons, List.append_assoc, List.length_append]

/-- What frames carry is read from them, all of it and with all of their bytes. -/
lemma Carries.readFrom? (h : Carries tag full last frames) :
    readFrom? tag frames = some (full.flatten ++ last, frames.length) := by
  have he := h.readFrom?_append []
  rwa [if_neg (by simp), List.append_nil] at he

/-- What is read from bytes is what the frames at their front carry.

**Proof sketch.** Induction along the reading. The last frame carries its piece, and each one before
it is full and has the tag, so it may be put in front. -/
lemma exists_carries_of_readFrom? (htag : bytes.head? = some tag)
    (h : readFrom? tag bytes = some (payload, n)) :
    ∃ full last, Carries tag full last (bytes.take n) ∧ payload = full.flatten ++ last := by
  induction h using readFrom?_induction with
  | last t piece rest hp _ _ =>
    obtain rfl : t = tag := Option.some.inj htag
    rw [List.take_left]
    exact ⟨[], piece, ⟨by simp, hp, rfl⟩, rfl⟩
  | more t piece rest payload n hl hr _ ih _ =>
    obtain rfl : t = tag := Option.some.inj htag
    obtain ⟨full, last, hc, rfl⟩ := ih hr
    rw [List.take_length_add_append]
    exact ⟨piece :: full, last, hc.cons hl, by rw [List.flatten_cons, List.append_assoc]⟩

/-- **A payload written again** comes out in the frames that carry it, unless the last of several is
empty.

**Proof sketch.** Induction on the full pieces. Behind a full one, either there is more of the
payload, which is written behind it, or there is none. In that case only an empty frame is left of
those that carry it, and it is not written. -/
theorem encode_eq_iff (h : Carries tag full last frames) :
    encode tag (full.flatten ++ last) = frames ↔ ¬ (full ≠ [] ∧ last = []) := by
  induction full generalizing frames with
  | nil =>
    obtain ⟨-, hlast, rfl⟩ := h
    exact iff_of_true (encode_of_le tag hlast) (fun he => he.1 rfl)
  | cons piece full ih =>
    obtain ⟨hp, others, hothers, rfl⟩ := h.exists_of_cons
    rw [List.flatten_cons, List.append_assoc]
    by_cases hne : full.flatten ++ last = []
    · have hlast : last = [] := (List.append_eq_nil_iff.1 hne).2
      have hpos : 0 < others.length :=
        List.length_pos_of_ne_nil fun he => by simpa [he] using hothers.head?
      rw [hne, List.append_nil, encode_of_le tag hp.le]
      refine iff_of_false (fun he => ?_) (not_not_intro ⟨List.cons_ne_nil _ _, hlast⟩)
      have hlen := congrArg List.length he
      rw [List.length_append] at hlen
      omega
    · have hfull : last = [] → full ≠ [] := by
        rintro rfl rfl
        exact hne rfl
      rw [encode_append tag hp hne, List.append_cancel_left_eq, ih hothers]
      exact not_congr ⟨fun he => ⟨List.cons_ne_nil _ _, he.2⟩, fun he => ⟨hfull he.2, he.2⟩⟩

end Chunk

/-! ## Values -/

namespace Format

/-- Frames are *loose* if their kind is chunked and either the last of several is empty, or they
carry a text and its bytes are not valid. -/
def Loose (chunked isText : UInt8 → Bool) (frames : Bytes) : Prop :=
  ∃ tag full last, chunked tag = true ∧ Chunk.Carries tag full last frames ∧
    (full ≠ [] ∧ last = [] ∨ isText tag = true ∧ ¬ Utf8.Valid (full.flatten ++ last))

namespace Codec

variable {α : Type} {f : Format α} {chunked isText : UInt8 → Bool} {codec : f.Codec chunked}

/-- The laws of a decoder that accepts just what its encoder writes. Of the chunked kinds, some are
texts. -/
structure Accepts (codec : f.Codec chunked) (isText : UInt8 → Bool) : Prop where
  /-- A value begins with the byte of its kind. -/
  head? : ∀ {bytes : Bytes} {a : α} {n : ℕ}, f.decode bytes = .value a n →
    bytes.head? = some (codec.byte a)
  /-- A value without a payload is written as it was read. A payload is what was read, or, of a
  text, what that text is written as. -/
  written : ∀ {bytes : Bytes} {a : α} {n : ℕ}, f.decode bytes = .value a n →
    codec.payload? a = none ∧ codec.encode a = .ok (bytes.take n) ∨
    ∃ raw, Chunk.readFrom? (codec.byte a) bytes = some (raw, n) ∧
      codec.payload? a =
        some (if isText (codec.byte a) = true then Utf8.encode (Utf8.decode raw) else raw)
  /-- Frames carry a value that was read as it is. -/
  carried : ∀ {bytes : Bytes} {a : α} {n : ℕ}, f.decode bytes = .value a n → codec.carried a = a

/-- A payload is written in the frames that it was read from, unless they are loose.

**Proof sketch.** If the frames are those that are written, they carry the payload, so its last
piece is not empty behind others, and a text is its own encoding. If they are not loose, the bytes
that they carry are the payload. -/
lemma chunkEncode_eq_iff {tag : UInt8} {bytes raw payload : Bytes} {n : ℕ}
    (hchunked : chunked tag = true)
    (hhead : bytes.head? = some tag) (hraw : Chunk.readFrom? tag bytes = some (raw, n))
    (hpayload : payload = if isText tag = true then Utf8.encode (Utf8.decode raw) else raw) :
    Chunk.encode tag payload = bytes.take n ↔ ¬ Loose chunked isText (bytes.take n) := by
  obtain ⟨full, last, hc, rfl⟩ := Chunk.exists_carries_of_readFrom? hhead hraw
  constructor
  · rintro he ⟨tag', full', last', -, hc', hloose⟩
    obtain rfl : tag' = tag := Option.some.inj (hc'.head?.symm.trans hc.head?)
    have hread := Chunk.readFrom?_encode_append tag' payload []
    rw [if_neg (by simp), List.append_nil, he, hc'.readFrom?] at hread
    obtain ⟨rfl, -⟩ := Prod.mk.inj (Option.some.inj hread)
    rcases hloose with hempty | ⟨htext, hvalid⟩
    · exact (Chunk.encode_eq_iff hc').1 he hempty
    · rw [if_pos htext] at hpayload
      exact hvalid ⟨_, hpayload.symm⟩
  · intro hloose
    have hempty : ¬ (full ≠ [] ∧ last = []) := fun he => hloose ⟨_, _, _, hchunked, hc, .inl he⟩
    have hvalid (htext : isText tag = true) : Utf8.Valid (full.flatten ++ last) :=
      Classical.byContradiction fun he => hloose ⟨_, _, _, hchunked, hc, .inr ⟨htext, he⟩⟩
    have he : payload = full.flatten ++ last := by
      rw [hpayload]
      split_ifs with htext
      · exact Utf8.valid_iff.1 (hvalid htext)
      · rfl
    rw [he]
    exact (Chunk.encode_eq_iff hc).2 hempty

/-- **A value written again**: what a decoder accepts can be written, reading that gives the value
back, and it is what was read, unless these frames are loose.

**Proof sketch.** A value without a payload is written as the bytes that were read. One with a
payload is written in chunks, which are the same bytes exactly if they are not loose. Reading what
is written gives the value back because a decoded value is what its frames carry. -/
theorem Accepts.written_again (laws : codec.Accepts isText) {bytes : Bytes} {a : α} {n : ℕ}
    (h : f.decode bytes = .value a n) :
    ∃ frames, codec.encode a = .ok frames ∧ f.decode frames = .value a frames.length ∧
      (frames = bytes.take n ↔ ¬ Loose chunked isText (bytes.take n)) := by
  have back {frames : Bytes} (he : codec.encode a = .ok frames) :
      f.decode frames = .value a frames.length := by
    have hd : f.decode (frames ++ []) = .value a frames.length :=
      (codec.decode_encode_append he fun _ _ _ => by simp).trans (by rw [laws.carried h])
    rwa [List.append_nil] at hd
  rcases laws.written h with ⟨hp, he⟩ | ⟨raw, hraw, hp⟩
  · refine ⟨_, he, back he, iff_of_true rfl ?_⟩
    rintro ⟨tag, full, last, hchunked, hc, -⟩
    obtain rfl : tag = codec.byte a := Option.some.inj (hc.head?.symm.trans (codec.head?_encode he))
    rw [← codec.isSome_payload?, hp] at hchunked
    cases hchunked
  · have hchunked : chunked (codec.byte a) = true := by
      rw [← codec.isSome_payload?, hp, Option.isSome_some]
    have he := codec.encode_of_payload hp
    exact ⟨_, he, back he, chunkEncode_eq_iff hchunked (laws.head? h) hraw rfl⟩

end Codec

end Format

/-! ## Commands -/

/-- Whether a kind of command carries text. -/
def CommandTag.isText : CommandTag → Bool
  | inputString => true
  | _ => false

namespace Command

/-- Whether a byte opens a command with a text. -/
def opensText (b : UInt8) : Bool := (CommandTag.ofByte? b).any CommandTag.isText

/-- A command that is found behind the byte of a kind is of that kind. Its fields are written as
they were read, or it is a string, the text of the payload that was read.

**Proof sketch.** One case for each kind of commands: the bytes of its fields are taken apart until
the decoder has all that it needs, and written again they are the same bytes. Too few bytes are
incomplete, so they give no command. -/
lemma cases_of_decodeTagged {first : UInt8} {tag : CommandTag} {rest : Bytes} {c : Command} {n : ℕ}
    (h : decodeTagged first tag rest = .value c n) :
    c.tag = tag ∧ ((c.payload? = none ∧ ∃ body tail, rest = body ++ tail ∧ c.encodeBody = .ok body ∧
        n = body.length + 1) ∨
      ∃ raw, Chunk.readFrom? first (first :: rest) = some (raw, n) ∧
        c = inputString (Utf8.decode raw)) := by
  cases tag with
  | step | stepIgnoringBreakpoints | stop | requestDump | requestStack =>
    obtain ⟨rfl, rfl⟩ := Decoded.value.inj h
    exact ⟨rfl, .inl ⟨rfl, [], rest, rfl, rfl, rfl⟩⟩
  | setBreakpoint | clearBreakpoint =>
    rcases rest with _ | ⟨high, _ | ⟨low, tail⟩⟩
    iterate 2 cases h
    obtain ⟨rfl, rfl⟩ := Decoded.value.inj h
    exact ⟨rfl, .inl ⟨rfl, [high, low], tail, rfl, encodeAddress_number16 _ high low, rfl⟩⟩
  | inputKey =>
    rcases rest with _ | ⟨code, tail⟩
    · cases h
    · simp only [decodeTagged] at h
      split_ifs at h with hk
      obtain ⟨rfl, rfl⟩ := Decoded.value.inj h
      refine ⟨rfl, .inl ⟨rfl, [code], tail, rfl, ?_, rfl⟩⟩
      rw [encodeBody, encodeKey_ofChar hk]
      rfl
  | inputString =>
    simp only [decodeTagged] at h
    split at h
    case h_2 => cases h
    case h_1 raw m hr =>
      obtain ⟨rfl, rfl⟩ := Decoded.value.inj h
      exact ⟨rfl, .inr ⟨raw, hr, rfl⟩⟩
  | requestMemory =>
    rcases rest with _ | ⟨high, _ | ⟨low, _ | ⟨high', _ | ⟨low', tail⟩⟩⟩⟩
    iterate 4 cases h
    obtain ⟨rfl, rfl⟩ := Decoded.value.inj h
    refine ⟨rfl, .inl ⟨rfl, [high, low, high', low'], tail, rfl, ?_, rfl⟩⟩
    rw [encodeBody, encodeAddress_number16, encodeAddress_number16]
    rfl
  | setMemory =>
    rcases rest with _ | ⟨high, _ | ⟨low, _ | ⟨length, more⟩⟩⟩
    iterate 3 cases h
    simp only [decodeTagged] at h
    split_ifs at h with hl
    obtain ⟨rfl, rfl⟩ := Decoded.value.inj h
    have hlen : (more.take length.toNat).length = length.toNat := by
      rw [List.length_take] at hl ⊢
      omega
    refine ⟨rfl, .inl ⟨rfl, high :: low :: length :: more.take length.toNat, more.drop length.toNat,
      ?_, ?_, ?_⟩⟩
    · rw [List.cons_append, List.cons_append, List.cons_append, List.take_append_drop]
    · have hmax : ¬ Chunk.maxSize < (more.take length.toNat).length := by
        have := length.toNat_lt
        rw [hlen, Chunk.maxSize]
        omega
      rw [encodeBody, encodeAddress_number16, hlen, UInt8.ofNat_toNat]
      rw [hlen] at hmax
      exact if_neg hmax
    · rw [List.length_cons, List.length_cons, List.length_cons, hlen]
      omega
  | setRegister =>
    rcases rest with _ | ⟨id, more⟩
    · cases h
    · simp only [decodeTagged] at h
      cases hr : Register.ofId? id with
      | none =>
        rw [hr] at h
        cases h
      | some r =>
        obtain rfl := Register.id_of_ofId? hr
        rw [hr] at h
        simp only at h
        split_ifs at h with hw
        · rcases more with _ | ⟨b, tail⟩
          · cases h
          · obtain ⟨rfl, rfl⟩ := Decoded.value.inj h
            exact ⟨rfl, .inl ⟨rfl, [r.id, b], tail, rfl, encodeRegister_natCast hw b, rfl⟩⟩
        · rcases more with _ | ⟨high, _ | ⟨low, tail⟩⟩
          iterate 2 cases h
          obtain ⟨rfl, rfl⟩ := Decoded.value.inj h
          have hwritten := encodeRegister_number16 hw high low
          exact ⟨rfl, .inl ⟨rfl, [r.id, high, low], tail, rfl, hwritten, rfl⟩⟩

/-- A value is found behind the byte of a kind.

**Proof sketch.** By whether the first byte is that of a kind. A byte of no kind is skipped and
gives no value. -/
lemma exists_tag_of_decode {bytes : Bytes} {c : Command} {n : ℕ} (h : decode bytes = .value c n) :
    ∃ tag rest, bytes = CommandTag.byte tag :: rest ∧
      decodeTagged tag.byte tag rest = .value c n := by
  rcases bytes with _ | ⟨first, rest⟩
  · cases h
  · rw [decode] at h
    cases ht : CommandTag.ofByte? first with
    | none =>
      rw [ht] at h
      cases h
    | some tag =>
      rw [ht] at h
      obtain rfl := CommandTag.byte_of_ofByte? ht
      exact ⟨tag, rest, rfl, h⟩

/-- **The decoder of commands** accepts just what their encoder writes.

**Proof sketch.** The first byte is that of the kind. By `cases_of_decodeTagged` a command without a
payload is written as it was read, and a string has the text of the payload that was read, in which
nothing is left to replace. -/
theorem accepts : codec.Accepts opensText where
  head? {bytes c n} h := by
    obtain ⟨tag, rest, rfl, ht⟩ := exists_tag_of_decode h
    obtain ⟨rfl, -⟩ := cases_of_decodeTagged ht
    rfl
  written {bytes c n} h := by
    obtain ⟨tag, rest, rfl, ht⟩ := exists_tag_of_decode h
    obtain ⟨rfl, ⟨hp, body, tail, rfl, hbody, rfl⟩ | ⟨raw, hraw, rfl⟩⟩ := cases_of_decodeTagged ht
    · refine .inl ⟨hp, (encode_of_payload?_eq_none hp).trans ?_⟩
      rw [hbody, List.take_succ_cons, List.take_left]
      rfl
    · refine .inr ⟨raw, hraw, ?_⟩
      show some (Utf8.encode (Utf16.ofString (Utf8.decode raw)).repaired) =
          some (Utf8.encode (Utf8.decode raw))
      rw [Utf16.repaired_ofString]
  carried {bytes c n} h := by
    obtain ⟨tag, rest, rfl, ht⟩ := exists_tag_of_decode h
    rw [codec_carried]
    obtain ⟨rfl, ⟨hp, -⟩ | ⟨raw, -, rfl⟩⟩ := cases_of_decodeTagged ht
    · exact carried_of_payload?_eq_none hp
    · exact carried_inputString (Utf8.decode raw)

/-- A command that was decoded can be written, since its fields came out of bytes. -/
lemma encodes_of_decode {bytes : Bytes} {c : Command} {n : ℕ} (h : decode bytes = .value c n) :
    c.Encodes := by
  obtain ⟨frames, he, -⟩ := accepts.written_again h
  exact ⟨frames, he⟩

end Command

/-! ## Events -/

namespace Event

/-- Whether a byte opens an event with a text. -/
def opensText (b : UInt8) : Bool := (EventTag.ofByte? b).any EventTag.isText

/-- An event with a payload that is found is made of the payload that was read. -/
lemma exists_of_decodeChunked {first : UInt8} {rest : Bytes} {make : Bytes → Event}
    {e : Event} {n : ℕ} (h : decodeChunked first rest make = .value e n) :
    ∃ raw, Chunk.readFrom? first (first :: rest) = some (raw, n) ∧ e = make raw := by
  rw [decodeChunked] at h
  split at h
  case h_1 raw m hr =>
    obtain ⟨rfl, rfl⟩ := Decoded.value.inj h
    exact ⟨raw, hr, rfl⟩
  case h_2 => cases h

/-- An event that is found behind the byte of a kind is of that kind. It is written as it was read,
or it has a payload, that which was read or the text of it.

**Proof sketch.** One case for each kind of events. Those with a payload are read in chunks, those
without fields are their byte alone, and the address of a breakpoint is two bytes, which are written
as they were read. -/
lemma cases_of_decodeTagged {first : UInt8} {tag : EventTag} {rest : Bytes} {e : Event} {n : ℕ}
    (h : decodeTagged first tag rest = .value e n) :
    e.tag = tag ∧
    ((e.payload? = none ∧ ∃ body tail, rest = body ++ tail ∧ e.encode = .ok (tag.byte :: body) ∧
        n = body.length + 1) ∨
      ∃ raw, Chunk.readFrom? first (first :: rest) = some (raw, n) ∧
        e.payload? = some (if tag.isText = true then Utf8.encode (Utf8.decode raw) else raw)) := by
  cases tag with
  | output | errorOutput | dumpResult | memoryResult | stackResult =>
    obtain ⟨raw, hr, rfl⟩ := exists_of_decodeChunked h
    exact ⟨rfl, .inr ⟨raw, hr, rfl⟩⟩
  | keyRequested | stringRequested | endOfProgram | crashed =>
    obtain ⟨rfl, rfl⟩ := Decoded.value.inj h
    exact ⟨rfl, .inl ⟨rfl, [], rest, rfl, rfl, rfl⟩⟩
  | breakpointHit =>
    rcases rest with _ | ⟨high, _ | ⟨low, tail⟩⟩
    iterate 2 cases h
    obtain ⟨rfl, rfl⟩ := Decoded.value.inj h
    refine ⟨rfl, .inl ⟨rfl, [high, low], tail, rfl, ?_, rfl⟩⟩
    simp only [encode, payload?, number16, Number.within?_natCast (number16_le high low),
      bytes16_toNat, tag]

/-- A value is found behind the byte of a kind.

**Proof sketch.** By whether the first byte is that of a kind, as for commands. -/
lemma exists_tag_of_decode {bytes : Bytes} {e : Event} {n : ℕ} (h : decode bytes = .value e n) :
    ∃ tag rest, bytes = EventTag.byte tag :: rest ∧
      decodeTagged tag.byte tag rest = .value e n := by
  rcases bytes with _ | ⟨first, rest⟩
  · cases h
  · rw [decode] at h
    cases ht : EventTag.ofByte? first with
    | none =>
      rw [ht] at h
      cases h
    | some tag =>
      rw [ht] at h
      obtain rfl := EventTag.byte_of_ofByte? ht
      exact ⟨tag, rest, rfl, h⟩

/-- **The decoder of events** accepts just what their encoder writes.

**Proof sketch.** The first byte is that of the kind. By `cases_of_decodeTagged` an event without a
payload is written as it was read, and one with a payload carries that, or the text of it. -/
theorem accepts : codec.Accepts opensText where
  head? {bytes e n} h := by
    obtain ⟨tag, rest, rfl, ht⟩ := exists_tag_of_decode h
    obtain ⟨rfl, -⟩ := cases_of_decodeTagged ht
    rfl
  written {bytes e n} h := by
    obtain ⟨tag, rest, rfl, ht⟩ := exists_tag_of_decode h
    obtain ⟨rfl, ⟨hp, body, tail, rfl, he, rfl⟩ | ⟨raw, hraw, hp⟩⟩ := cases_of_decodeTagged ht
    · refine .inl ⟨hp, he.trans ?_⟩
      rw [List.take_succ_cons, List.take_left]
    · have htext : opensText e.tag.byte = e.tag.isText := by
        rw [opensText, EventTag.ofByte?_byte, Option.any_some]
      refine .inr ⟨raw, hraw, hp.trans ?_⟩
      simp only [codec, htext]
  carried {bytes e n} _ := codec_carried e

end Event

/-! ## Both directions -/

/-- **Frames written again**, in both directions of the wire. Whatever a decoder accepts can be
written. What is written gives the value back and takes all of its bytes, and it is what was read
unless those frames are loose.

**Proof sketch.** What either decoder accepts is what its frames carry (`accepts`), and from that
`written_again` follows for any codec. -/
theorem encode_of_decode :
    (∀ {bytes : Bytes} {c : Command} {n : ℕ}, Command.decode bytes = .value c n →
      ∃ frames, c.encode = .ok frames ∧ Command.decode frames = .value c frames.length ∧
        (frames = bytes.take n ↔ ¬ Format.Loose Command.chunked Command.opensText (bytes.take n))) ∧
    (∀ {bytes : Bytes} {e : Event} {n : ℕ}, Event.decode bytes = .value e n →
      ∃ frames, e.encode = .ok frames ∧ Event.decode frames = .value e frames.length ∧
        (frames = bytes.take n ↔ ¬ Format.Loose Event.chunked Event.opensText (bytes.take n))) :=
  ⟨fun h => Command.accepts.written_again h, fun h => Event.accepts.written_again h⟩

/-- A string of one byte that is no text, with another command behind it, and an event without
fields: the string is not written as it was read, but the event is. -/
theorem encode_of_decode_replacement :
    Command.decode [0x74, 1, 0xff, 0x65] = .value (.inputString "\ufffd") 3 ∧
    (∃ frames, (Command.inputString "\ufffd").encode = .ok frames ∧
      Command.decode frames = .value (.inputString "\ufffd") frames.length ∧
      frames ≠ [0x74, 1, 0xff]) ∧
    Event.decode [0x6b] = .value .keyRequested 1 ∧
    ∃ frames, Event.keyRequested.encode = .ok frames ∧
      Event.decode frames = .value .keyRequested frames.length ∧ frames = [0x6b] := by
  have hone : Chunk.Carries 0x74 [] [0xff] [0x74, 1, 0xff] := ⟨by simp, by decide, rfl⟩
  have hread : Chunk.readFrom? 0x74 ([0x74, 1, 0xff] ++ [0x65]) = some ([0xff], 3) := by
    have hlen : ([0xff] : Bytes).length ≤ Chunk.maxSize := by decide
    exact (Chunk.readFrom?_frame_append 0x74 0x74 [0x65] hlen).trans (if_neg (by decide))
  have hcommand : Command.decode [0x74, 1, 0xff, 0x65] = .value (.inputString "\ufffd") 3 :=
    @Command.decode_of_readFrom? "" _ _ _ rfl hread
  have hevent : Event.decode [0x6b] = .value .keyRequested 1 := rfl
  have hinvalid : ¬ Utf8.Valid [0xff] := by
    rw [Utf8.valid_iff]
    decide
  have hloose : Format.Loose Command.chunked Command.opensText [0x74, 1, 0xff] :=
    ⟨0x74, [], [0xff], rfl, hone, .inr ⟨rfl, hinvalid⟩⟩
  refine ⟨hcommand, ?_, hevent, ?_⟩
  · obtain ⟨frames, he, hd, hiff⟩ := encode_of_decode.1 hcommand
    exact ⟨frames, he, hd, fun h => hiff.1 h hloose⟩
  · obtain ⟨frames, he, hd, -⟩ := encode_of_decode.2 hevent
    obtain rfl : [0x6b] = frames := Except.ok.inj he
    exact ⟨_, he, hd, rfl⟩

end DebugWire
