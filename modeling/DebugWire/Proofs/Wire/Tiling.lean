import DebugWire.Proofs.Wire.Canonical
import Mathlib.Data.List.TakeWhile

set_option relaxedAutoImplicit false
set_option autoImplicit false

/-!
# Streams piece by piece

What a reader hands out of a stream accounts for each of its bytes. The items stand for pieces that
lie side by side, from the first byte up to those that are left over, and what is left over is the
beginning of a frame: some more bytes make a value of it. This holds for all bytes and for both
directions of the wire.

## Main definitions

* `DebugWire.Item.Covers` — the bytes that an item stands for.
* `DebugWire.Format.Piecewise` — the laws of a decoder that goes through a stream piece by piece.
* `DebugWire.Format.Tiled` — a stream as the pieces of its items and what is left over.

## Main results

* `DebugWire.Chunk.exists_completion` — the beginning of a payload, completed.
* `DebugWire.Command.piecewise`, `DebugWire.Event.piecewise` — both decoders obey the laws.
* `DebugWire.Format.Piecewise.tiled` — all that a reader hands out.
-/

namespace DebugWire

/-! ## Items and their bytes -/

/-- An item *covers* a piece of a stream with other bytes behind it. A value covers bytes that begin
with the one of its kind. An unknown byte covers a run of bytes that open no frame, and the run is
as long as it can be. A field that stands for nothing covers two bytes, the first one of its frame
and itself; there are such fields in commands only. -/
inductive Item.Covers {α : Type} (opens : UInt8 → Bool) (byte : α → UInt8) :
    Direction → Item α → Bytes → Bytes → Prop
  /-- A value. -/
  | value {direction : Direction} (a : α) (body rest : Bytes) :
    Covers opens byte direction (.value a) (byte a :: body) rest
  /-- Bytes that open no frame. -/
  | unknown {direction : Direction} {first : UInt8} {run rest : Bytes}
    (hrun : ∀ b ∈ first :: run, opens b = false) (hrest : ∀ b ∈ rest.head?, opens b = true) :
    Covers opens byte direction (.malformed (.unknownTag direction first (first :: run).length))
      (first :: run) rest
  /-- A key that is not supported. -/
  | key {code : UInt8} (rest : Bytes) (h : Key.isKey (Char.ofNat code.toNat) = false) :
    Covers opens byte .command (.malformed (.unsupportedKey code))
      [CommandTag.inputKey.byte, code] rest
  /-- A register that there is not. -/
  | register {id : UInt8} (rest : Bytes) (h : Register.ofId? id = none) :
    Covers opens byte .command (.malformed (.unknownRegister id))
      [CommandTag.setRegister.byte, id] rest

/-- What a decoder of one direction promises about the bytes that it takes, and about those that it
waits with. -/
structure Format.Piecewise {α : Type} (f : Format α) (direction : Direction) (opens : UInt8 → Bool)
    (byte : α → UInt8) : Prop where
  /-- No result takes more bytes than there are. -/
  consumed_le : ∀ bytes : Bytes, (f.decode bytes).consumed ≤ bytes.length
  /-- An item covers the bytes that it takes. -/
  covers : ∀ {bytes : Bytes} {i : Item α}, (f.decode bytes).item? = some i →
    i.Covers opens byte direction (bytes.take (f.decode bytes).consumed)
      (bytes.drop (f.decode bytes).consumed)
  /-- Bytes that wait are the beginning of a frame. -/
  completes : ∀ {bytes : Bytes}, f.decode bytes = .incomplete →
    ∃ more a, more ≠ [] ∧ f.decode (bytes ++ more) = .value a (bytes ++ more).length

/-! ## Unknown bytes and values -/

section

variable {α : Type} {f : Format α} {opens chunked isText : UInt8 → Bool} {byte : α → UInt8}

/-- Bytes that open no frame are covered up to the next byte that does.

**Proof sketch.** The run of bytes that open no frame is taken as a whole, so all of its bytes open
none, and the byte behind it, if there is one, does. -/
lemma covers_resync (direction : Direction) {first : UInt8} (rest : Bytes)
    (hfirst : opens first = false)
    {i : Item α} (hi : (resync direction opens first rest : Decoded α).item? = some i) :
    i.Covers opens byte direction
      ((first :: rest).take (resync direction opens first rest : Decoded α).consumed)
      ((first :: rest).drop (resync direction opens first rest : Decoded α).consumed) := by
  obtain rfl := Option.some.inj hi
  obtain ⟨run, hrun⟩ : ∃ run, rest.takeWhile (fun b => !opens b) = run := ⟨_, rfl⟩
  obtain ⟨tail, htail⟩ : ∃ tail, rest.dropWhile (fun b => !opens b) = tail := ⟨_, rfl⟩
  have hsplit : rest = run ++ tail := by rw [← hrun, ← htail, List.takeWhile_append_dropWhile]
  have htake : (first :: rest).take (1 + run.length) = first :: run := by
    simp [hsplit, Nat.add_comm 1]
  have hdrop : (first :: rest).drop (1 + run.length) = tail := by simp [hsplit, Nat.add_comm 1]
  simp only [resync, Decoded.consumed, hrun, htake, hdrop]
  rw [Nat.add_comm, ← List.length_cons]
  refine .unknown ?_ ?_
  · intro b hb
    rcases List.mem_cons.1 hb with rfl | hb
    · exact hfirst
    · subst hrun
      simpa using List.mem_takeWhile_imp hb
  · intro b hb
    subst htail
    have hne := List.head?_dropWhile_not (fun b => !opens b) rest
    rw [Option.mem_def.1 hb] at hne
    simpa using hne

/-- A value covers the bytes that it takes: they are frames that carry it. -/
lemma Format.Codec.Accepts.covers {codec : f.Codec chunked} (laws : codec.Accepts isText)
    {direction : Direction} {bytes : Bytes} {a : α} {n : ℕ} (h : f.decode bytes = .value a n) :
    (Item.value a).Covers opens codec.byte direction (bytes.take n) (bytes.drop n) := by
  have hhead := laws.head? h
  rcases bytes with _ | ⟨first, rest⟩
  · cases hhead
  · obtain rfl := Option.some.inj hhead
    obtain ⟨k, rfl⟩ := Nat.exists_eq_succ_of_ne_zero (Nat.ne_of_gt (f.value_pos h))
    exact .value a _ _

/-- **A decoder that accepts just what its encoder writes** goes through a stream piece by piece, if
it does so where a frame is opened: an error there covers the bytes that it takes, and what waits
there can be completed.

**Proof sketch.** By what the decoder comes to. A value covers its bytes because it is written as it
was read, but for loose frames. An error is one of unknown bytes, which `covers_resync` is about, or
of an opened frame, as assumed. What waits is an opened frame or nothing. -/
lemma Format.Codec.Accepts.piecewise {codec : f.Codec chunked} (laws : codec.Accepts isText)
    {direction : Direction} (streams : f.Streams direction opens chunked)
    (hmalformed : ∀ {first : UInt8} {rest : Bytes} {cause : Malformed} {n : ℕ}, opens first = true →
      f.decode (first :: rest) = .malformed cause n →
      (Item.malformed cause).Covers opens codec.byte direction ((first :: rest).take n)
      ((first :: rest).drop n))
    (hincomplete : ∀ {first : UInt8} {rest : Bytes}, opens first = true →
      f.decode (first :: rest) = .incomplete →
      ∃ more a, more ≠ [] ∧ f.decode (first :: (rest ++ more)) = .value a
      (first :: (rest ++ more)).length)
    (hempty : ∃ more a, more ≠ [] ∧ f.decode more = .value a more.length) :
    f.Piecewise direction opens codec.byte where
  consumed_le := streams.consumed_le
  covers {bytes i} hi := by
    cases hd : f.decode bytes with
    | incomplete =>
      rw [hd] at hi
      cases hi
    | value a n =>
      rw [hd] at hi
      obtain rfl := Option.some.inj hi
      exact laws.covers hd
    | malformed cause n =>
      rcases bytes with _ | ⟨first, rest⟩
      · rw [f.decode_nil] at hd
        cases hd
      · cases ho : opens first with
        | false =>
          rw [← hd, streams.decode_unknown rest ho]
          rw [streams.decode_unknown rest ho] at hi
          exact covers_resync direction rest ho hi
        | true =>
          rw [hd] at hi
          obtain rfl := Option.some.inj hi
          exact hmalformed ho hd
  completes {bytes} h := by
    rcases bytes with _ | ⟨first, rest⟩
    · exact hempty
    · cases ho : opens first with
      | false =>
        rw [streams.decode_unknown rest ho] at h
        cases h
      | true => exact hincomplete ho h

end

/-! ## Payloads -/

namespace Chunk

variable {tag : UInt8} {bytes : Bytes}

/-- Bytes begin with a frame, or some more make one frame of them.

**Proof sketch.** If the bytes do not begin with a frame, then they are too short for one: they are
empty, a tag alone, or a tag and a length with too few bytes behind it. Each of them is completed by
zeros. -/
lemma exists_frame_or_completion (tag : UInt8) (bytes : Bytes) :
    (∃ t piece rest, piece.length ≤ maxSize ∧ bytes = frame t piece ++ rest) ∨
      ∃ more t piece, more ≠ [] ∧ piece.length ≤ maxSize ∧ bytes ++ more = frame t piece := by
  obtain hframe | rfl | ⟨t, rfl⟩ | ⟨t, length, rest, rfl, hl⟩ := exists_frame_or_short bytes
  · exact .inl hframe
  · exact .inr ⟨frame tag [], tag, [], List.cons_ne_nil _ _, Nat.zero_le _, rfl⟩
  · exact .inr ⟨[0], t, [], List.cons_ne_nil _ _, Nat.zero_le _, rfl⟩
  · have hlen : (rest ++ List.replicate (length.toNat - rest.length) 0).length = length.toNat := by
      rw [List.length_append, List.length_replicate]
      omega
    refine .inr ⟨List.replicate (length.toNat - rest.length) 0, t,
      rest ++ List.replicate (length.toNat - rest.length) 0, ?_, ?_, ?_⟩
    · rw [ne_eq, List.replicate_eq_nil_iff]
      omega
    · rw [hlen]
      exact Nat.le_of_lt_succ length.toNat_lt
    · rw [frame, hlen, UInt8.ofNat_toNat, List.cons_append, List.cons_append]

/-- **The beginning of a payload** can be completed: there are bytes behind which it is read and
takes all of them.

**Proof sketch.** Induction on the frames. The first one is either not complete, and then it takes
the bytes that it waits for, or it is full with more of the tag behind it, of which the same holds.
-/
theorem exists_completion (h : readFrom? tag bytes = none) :
    ∃ more payload, more ≠ [] ∧
      readFrom? tag (bytes ++ more) = some (payload, (bytes ++ more).length) := by
  induction hk : bytes.length using Nat.strongRecOn generalizing bytes with
  | ind k ih =>
    rcases exists_frame_or_completion tag bytes with
      ⟨t, piece, rest, hp, rfl⟩ | ⟨more, t, piece, hne, hp, he⟩
    · rw [readFrom?_frame_append tag t rest hp] at h
      split_ifs at h with hc
      have hlt : rest.length < k := by
        rw [← hk, List.length_append, length_frame]
        omega
      obtain ⟨more, payload, hne, hread⟩ := ih rest.length hlt (Option.map_eq_none_iff.1 h) rfl
      have hhead : (rest ++ more).head? = some tag := by
        rw [List.head?_append, hc.2]
        rfl
      refine ⟨more, piece ++ payload, hne, ?_⟩
      rw [List.append_assoc, readFrom?_frame_append tag t _ hp, if_pos ⟨hc.1, hhead⟩, hread]
      simp only [Option.map_some, List.length_append]
    · have hread := readFrom?_frame_append tag t [] hp
      rw [if_neg (by simp), List.append_nil, ← he] at hread
      exact ⟨more, piece, hne, hread⟩

end Chunk

/-! ## Commands -/

namespace Command

/-- An error behind the byte of a kind is about a key or a register that there is not, and takes
that byte and the field.

**Proof sketch.** One case for each kind of commands: only keys and registers are looked up, and
only a failed lookup is an error. -/
lemma cases_of_decodeTagged_malformed {first : UInt8} {tag : CommandTag} {rest : Bytes}
    {cause : Malformed} {n : ℕ} (h : decodeTagged first tag rest = .malformed cause n) :
    (∃ code tail, tag = .inputKey ∧ rest = code :: tail ∧
        Key.isKey (Char.ofNat code.toNat) = false ∧
        cause = .unsupportedKey code ∧ n = 2) ∨
      ∃ id tail, tag = .setRegister ∧ rest = id :: tail ∧ Register.ofId? id = none ∧
      cause = .unknownRegister id ∧
        n = 2 := by
  cases tag with
  | step | stepIgnoringBreakpoints | stop | requestDump | requestStack => cases h
  | setBreakpoint | clearBreakpoint | requestMemory | inputString =>
    simp only [decodeTagged] at h
    split at h <;> cases h
  | setMemory =>
    simp only [decodeTagged] at h
    split at h
    case h_1 => split_ifs at h
    case h_2 => cases h
  | inputKey =>
    rcases rest with _ | ⟨code, tail⟩
    · cases h
    · simp only [decodeTagged] at h
      split_ifs at h with hk
      obtain ⟨rfl, rfl⟩ := Decoded.malformed.inj h
      exact .inl ⟨code, tail, rfl, rfl, Bool.eq_false_iff.2 hk, rfl, rfl⟩
  | setRegister =>
    rcases rest with _ | ⟨id, tail⟩
    · cases h
    · simp only [decodeTagged] at h
      cases hr : Register.ofId? id with
      | none =>
        rw [hr] at h
        obtain ⟨rfl, rfl⟩ := Decoded.malformed.inj h
        exact .inr ⟨id, tail, rfl, rfl, hr, rfl, rfl⟩
      | some r =>
        rw [hr] at h
        simp only at h
        split_ifs at h <;> split at h <;> cases h

/-- The beginning of a command, completed.

**Proof sketch.** One case for each kind of commands: the fields that are missing are filled up with
zeros, or with a key that there is. A string waits for a frame that can be completed. -/
lemma exists_completion_decodeTagged {first : UInt8} {tag : CommandTag} {rest : Bytes}
    (h : decodeTagged first tag rest = .incomplete) :
    ∃ more c, more ≠ [] ∧ decodeTagged first tag (rest ++ more) =
      .value c (first :: (rest ++ more)).length := by
  cases tag with
  | step | stepIgnoringBreakpoints | stop | requestDump | requestStack => cases h
  | setBreakpoint | clearBreakpoint =>
    rcases rest with _ | ⟨high, _ | ⟨low, tail⟩⟩
    · exact ⟨[0, 0], _, List.cons_ne_nil _ _, rfl⟩
    · exact ⟨[0], _, List.cons_ne_nil _ _, rfl⟩
    · cases h
  | inputKey =>
    rcases rest with _ | ⟨code, tail⟩
    · exact ⟨[0x61], _, List.cons_ne_nil _ _, rfl⟩
    · simp only [decodeTagged] at h
      split_ifs at h
  | inputString =>
    simp only [decodeTagged] at h
    split at h
    case h_1 => cases h
    case h_2 hr =>
      obtain ⟨more, payload, hne, hread⟩ := Chunk.exists_completion hr
      rw [List.cons_append] at hread
      exact ⟨more, inputString (Utf8.decode payload), hne, by simp only [decodeTagged, hread]⟩
  | requestMemory =>
    rcases rest with _ | ⟨high, _ | ⟨low, _ | ⟨high', _ | ⟨low', tail⟩⟩⟩⟩
    · exact ⟨[0, 0, 0, 0], _, List.cons_ne_nil _ _, rfl⟩
    · exact ⟨[0, 0, 0], _, List.cons_ne_nil _ _, rfl⟩
    · exact ⟨[0, 0], _, List.cons_ne_nil _ _, rfl⟩
    · exact ⟨[0], _, List.cons_ne_nil _ _, rfl⟩
    · cases h
  | setMemory =>
    rcases rest with _ | ⟨high, _ | ⟨low, _ | ⟨length, bytes⟩⟩⟩
    · exact ⟨[0, 0, 0], _, List.cons_ne_nil _ _, rfl⟩
    · exact ⟨[0, 0], _, List.cons_ne_nil _ _, rfl⟩
    · exact ⟨[0], _, List.cons_ne_nil _ _, rfl⟩
    · simp only [decodeTagged] at h
      split_ifs at h with hl
      rw [List.length_take] at hl
      have hlen :
          (bytes ++ List.replicate (length.toNat - bytes.length) 0).length = length.toNat := by
        rw [List.length_append, List.length_replicate]
        omega
      refine ⟨List.replicate (length.toNat - bytes.length) 0,
        setMemory (number16 high low) (bytes ++ List.replicate (length.toNat - bytes.length) 0), ?_,
          ?_⟩
      · rw [ne_eq, List.replicate_eq_nil_iff]
        omega
      · simp only [decodeTagged, List.cons_append, List.take_of_length_le hlen.le, hlen,
          Nat.lt_irrefl, if_false, List.length_cons]
        rw [Nat.add_comm 4]
  | setRegister =>
    rcases rest with _ | ⟨id, value⟩
    · exact ⟨[1, 0], _, List.cons_ne_nil _ _, rfl⟩
    · simp only [decodeTagged] at h
      cases hr : Register.ofId? id with
      | none =>
        rw [hr] at h
        cases h
      | some r =>
        rw [hr] at h
        simp only [decodeTagged, List.cons_append, hr] at h ⊢
        split_ifs at h ⊢ with hw
        · rcases value with _ | ⟨b, tail⟩
          · exact ⟨[0], _, List.cons_ne_nil _ _, rfl⟩
          · cases h
        · rcases value with _ | ⟨high, _ | ⟨low, tail⟩⟩
          · exact ⟨[0, 0], _, List.cons_ne_nil _ _, rfl⟩
          · exact ⟨[0], _, List.cons_ne_nil _ _, rfl⟩
          · cases h

/-- **The decoder of commands** goes through a stream piece by piece.

**Proof sketch.** The decoder accepts what the encoder writes. An opened frame that is an error has
a key or a register that there is not, and one that waits can be completed. -/
theorem piecewise : format.Piecewise .command opens (fun c => c.tag.byte) := by
  refine accepts.piecewise streams (fun {first rest cause n} ho hd =>
    ?_) (fun {first rest} ho hd => ?_)
    ⟨[CommandTag.step.byte], step, List.cons_ne_nil _ _, rfl⟩
  all_goals
    obtain ⟨tag, ht⟩ := Option.isSome_iff_exists.1 ho
    obtain rfl := CommandTag.byte_of_ofByte? ht
    replace hd := (decode_tag_byte_cons tag rest).symm.trans hd
  · obtain ⟨code, tail, rfl, rfl, hk, rfl, rfl⟩ | ⟨id, tail, rfl, rfl, hr, rfl, rfl⟩ :=
      cases_of_decodeTagged_malformed hd
    · exact .key tail hk
    · exact .register tail hr
  · obtain ⟨more, c, hne, hmore⟩ := exists_completion_decodeTagged hd
    exact ⟨more, c, hne, (decode_tag_byte_cons tag (rest ++ more)).trans hmore⟩

end Command

/-! ## Events -/

namespace Event

/-- There is no error behind the byte of a kind.

**Proof sketch.** One case for each way in which an event is read, each of which gives a value or
waits. -/
lemma decodeTagged_ne_malformed {first : UInt8} {tag : EventTag} {rest : Bytes} {cause : Malformed}
    {n : ℕ} :
    decodeTagged first tag rest ≠ .malformed cause n := by
  intro h
  cases tag with
  | keyRequested | stringRequested | endOfProgram | crashed => cases h
  | breakpointHit =>
    simp only [decodeTagged] at h
    split at h <;> cases h
  | output | errorOutput | dumpResult | memoryResult | stackResult =>
    simp only [decodeTagged, decodeChunked] at h
    split at h <;> cases h

/-- The beginning of an event with a payload, completed. -/
lemma exists_completion_decodeChunked {first : UInt8} {rest : Bytes} {make : Bytes → Event}
    (h : decodeChunked first rest make = .incomplete) :
    ∃ more e, more ≠ [] ∧ decodeChunked first (rest ++ more) make =
      .value e (first :: (rest ++ more)).length := by
  rw [decodeChunked] at h
  split at h
  case h_1 => cases h
  case h_2 hr =>
    obtain ⟨more, payload, hne, hread⟩ := Chunk.exists_completion hr
    rw [List.cons_append] at hread
    exact ⟨more, make payload, hne, by rw [decodeChunked, hread]⟩

/-- The beginning of an event, completed: there are bytes with which it becomes a value, and takes
all of them.

**Proof sketch.** A breakpoint lacks one or both bytes of its address. Every other event that waits
is read in chunks. -/
lemma exists_completion_decodeTagged {first : UInt8} {tag : EventTag} {rest : Bytes}
    (h : decodeTagged first tag rest = .incomplete) :
    ∃ more e, more ≠ [] ∧ decodeTagged first tag (rest ++ more) =
      .value e (first :: (rest ++ more)).length := by
  cases tag with
  | keyRequested | stringRequested | endOfProgram | crashed => cases h
  | breakpointHit =>
    rcases rest with _ | ⟨high, _ | ⟨low, tail⟩⟩
    · exact ⟨[0, 0], _, List.cons_ne_nil _ _, rfl⟩
    · exact ⟨[0], _, List.cons_ne_nil _ _, rfl⟩
    · cases h
  | output | errorOutput | dumpResult | memoryResult | stackResult =>
    exact exists_completion_decodeChunked h

/-- **The decoder of events** goes through a stream piece by piece.

**Proof sketch.** The laws of the format give this, if there is no error behind the byte of a kind
and every beginning can be completed. -/
theorem piecewise : format.Piecewise .event opens (fun e => e.tag.byte) := by
  refine accepts.piecewise streams (fun {first rest cause n} ho hd =>
    ?_) (fun {first rest} ho hd => ?_)
    ⟨[EventTag.crashed.byte], crashed, List.cons_ne_nil _ _, rfl⟩
  all_goals
    obtain ⟨tag, ht⟩ := Option.isSome_iff_exists.1 ho
    obtain rfl := EventTag.byte_of_ofByte? ht
    replace hd := (decode_tag_byte_cons tag rest).symm.trans hd
  · exact absurd hd decodeTagged_ne_malformed
  · obtain ⟨more, e, hne, hmore⟩ := exists_completion_decodeTagged hd
    exact ⟨more, e, hne, (decode_tag_byte_cons tag (rest ++ more)).trans hmore⟩

end Event

/-! ## Streams -/

/-- A stream is *tiled* by the pieces of items and by what is left over. -/
structure Format.Tiled {α : Type} (f : Format α) (direction : Direction) (opens : UInt8 → Bool)
    (byte : α → UInt8) (bytes : Bytes) (pieces : List (Item α × Bytes)) (left : Bytes) : Prop where
  /-- The items are all that a reader hands out, and it keeps what is left over. -/
  drain_eq : Reader.drain f ⟨bytes⟩ = (pieces.map Prod.fst, ⟨left⟩)
  /-- The pieces lie side by side, from the first byte up to what is left over. -/
  flatten_eq : (pieces.map Prod.snd).flatten ++ left = bytes
  /-- There are at most as many items as bytes. -/
  length_le : pieces.length ≤ bytes.length
  /-- Each item is what the bytes from its piece on give. It takes that piece, which has bytes, and
  covers it. -/
  piece : ∀ {before after : List (Item α × Bytes)} {i : Item α} {piece rest : Bytes},
    pieces = before ++ (i, piece) :: after → rest = (after.map Prod.snd).flatten ++ left →
    piece ≠ [] ∧ (f.decode (piece ++ rest)).item? = some i ∧ (f.decode (piece ++ rest)).consumed =
      piece.length ∧
      i.Covers opens byte direction piece rest
  /-- What is left over is the beginning of a frame, and more than nothing is missing from it. -/
  completes : ∃ more a, more ≠ [] ∧ f.decode (left ++ more) = .value a (left ++ more).length

/-- **All that a reader hands out** of a stream tiles it, if the decoder obeys the laws.

**Proof sketch.** Induction along the results. The first item takes its piece, and what it hands out
behind it tiles the rest. Where there is no more item, the bytes are the beginning of a frame. -/
theorem Format.Piecewise.tiled {α : Type} {f : Format α} {direction : Direction}
    {opens : UInt8 → Bool}
    {byte : α → UInt8} (laws : f.Piecewise direction opens byte) (bytes : Bytes) :
    ∃ pieces left, f.Tiled direction opens byte bytes pieces left := by
  induction bytes using f.drain_induction with
  | stop bytes h =>
    refine ⟨[], bytes, Reader.drain_of_incomplete h, rfl, Nat.zero_le _, ?_, laws.completes h⟩
    intro before after i piece rest he
    exact absurd he.symm (List.append_ne_nil_of_right_ne_nil before (List.cons_ne_nil _ after))
  | item bytes i hi ih =>
    obtain ⟨pieces, left, ih⟩ := ih
    have hpos := f.consumed_pos_of_item? hi
    have hle := laws.consumed_le bytes
    have hcovers := laws.covers hi
    obtain ⟨n, hn⟩ : ∃ n, (f.decode bytes).consumed = n := ⟨_, rfl⟩
    have hdrain := Reader.drain_of_item hi
    rw [hn] at ih hpos hle hcovers hdrain
    have hlen := ih.length_le
    rw [List.length_drop] at hlen
    refine ⟨(i, bytes.take n) :: pieces, left, ?_, ?_, ?_, ?_, ih.completes⟩
    · rw [hdrain, ih.drain_eq]
      rfl
    · rw [List.map_cons, List.flatten_cons, List.append_assoc, ih.flatten_eq, List.take_append_drop]
    · rw [List.length_cons]
      omega
    · rintro (_ | ⟨first, before⟩) after j piece rest he hrest
      · obtain ⟨hfirst, rfl⟩ := List.cons.inj he
        obtain ⟨rfl, rfl⟩ := Prod.mk.inj hfirst
        rw [hrest, ih.flatten_eq, List.take_append_drop, hn, List.length_take_of_le hle]
        refine ⟨List.ne_nil_of_length_pos ?_, hi, rfl, hcovers⟩
        rw [List.length_take]
        omega
      · exact ih.piece (List.cons.inj he).2 hrest

end DebugWire
