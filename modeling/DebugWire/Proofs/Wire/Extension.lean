import DebugWire.Proofs.Wire.Chunk
import DebugWire.Wire.Event

set_option relaxedAutoImplicit false
set_option autoImplicit false

/-!
# Decoding when more bytes come in

A decoder sees only the bytes that have come in so far. What it has found at their front stays the
same whatever comes behind them, in both directions of the wire, with two exceptions: a chunked
value that ends with all bytes read may go on behind a seam, and bytes that open no frame may be
followed by more of them.

## Main definitions

* `DebugWire.Format.Streams` — the laws of a decoder over a stream.
* `DebugWire.CommandTag.isChunked`, `DebugWire.EventTag.isChunked` — the kinds with chunked
  payloads.

## Main results

* `DebugWire.Command.streams`, `DebugWire.Event.streams` — both decoders obey them.
-/

namespace DebugWire

/-! ## The laws -/

/-- What a decoder of one direction promises over a stream. The bytes that open a frame and those
that open a chunked one are given by tests. -/
structure Format.Streams {α : Type} (f : Format α) (direction : Direction)
    (opens chunked : UInt8 → Bool) :
    Prop where
  /-- A chunked frame is a frame. -/
  opens_of_chunked : ∀ {b : UInt8}, chunked b = true → opens b = true
  /-- A byte that opens no frame is given up together with all such bytes behind it. -/
  decode_unknown : ∀ {first : UInt8} (rest : Bytes), opens first = false →
    f.decode (first :: rest) = resync direction opens first rest
  /-- No result takes more bytes than there are. -/
  consumed_le : ∀ bytes : Bytes, (f.decode bytes).consumed ≤ bytes.length
  /-- The result for a frame that is complete stays, unless the bytes end at a seam. -/
  decode_append : ∀ {first : UInt8} {rest more : Bytes}, opens first = true →
    f.decode (first :: rest) ≠ .incomplete →
    ((f.decode (first :: rest)).consumed = (first :: rest).length → chunked first = true →
      ¬ Chunk.Seam first (first :: rest ++ more) (first :: rest).length) →
    f.decode (first :: rest ++ more) = f.decode (first :: rest)

/-- The number of bytes up to the next one that opens a frame is at most the number of all. -/
lemma consumed_resync_le {α : Type} (direction : Direction) (opens : UInt8 → Bool) (first : UInt8)
    (rest : Bytes) :
    (resync direction opens first rest : Decoded α).consumed ≤ (first :: rest).length := by
  have h := (List.takeWhile_sublist (fun b => !opens b) (l := rest)).length_le
  simp only [resync, Decoded.consumed, List.length_cons]
  omega

/-- A payload that was read from the front of bytes stays, unless the bytes end at a seam. -/
private lemma readFrom?_cons_append {first : UInt8} {rest more payload : Bytes} {n : ℕ}
    (h : Chunk.readFrom? first (first :: rest) = some (payload, n))
    (hs : n = (first :: rest).length →
      ¬ Chunk.Seam first (first :: rest ++ more) (first :: rest).length) :
    Chunk.readFrom? first (first :: (rest ++ more)) = some (payload, n) :=
  Chunk.readFrom?_append h rfl fun hn => hn ▸ hs hn

/-! ## Commands -/

/-- Whether the payload of a kind of command is chunked. -/
def CommandTag.isChunked : CommandTag → Bool
  | inputString => true
  | _ => false

namespace Command

/-- Whether a byte opens a chunked command. -/
def chunked (b : UInt8) : Bool := (CommandTag.ofByte? b).any CommandTag.isChunked

/-- No command takes more bytes than there are.

**Proof sketch.** One case for each kind of commands: what is taken are the bytes that were matched,
and those of memory are as many as their length says. -/
lemma consumed_decodeTagged_le (first : UInt8) (tag : CommandTag) (rest : Bytes) :
    (decodeTagged first tag rest).consumed ≤ (first :: rest).length := by
  cases tag with
  | step | stepIgnoringBreakpoints | stop | requestDump | requestStack =>
    exact Nat.le_add_left 1 rest.length
  | inputString =>
    simp only [decodeTagged]
    split
    case h_1 h => exact Chunk.le_length_of_readFrom? h
    case h_2 => exact Nat.zero_le _
  | inputKey =>
    rcases rest with _ | ⟨code, rest⟩
    · exact Nat.zero_le _
    · simp only [decodeTagged]
      split_ifs <;> exact Nat.le_add_left 2 rest.length
  | setBreakpoint | clearBreakpoint =>
    rcases rest with _ | ⟨_, _ | ⟨_, rest⟩⟩
    · exact Nat.zero_le _
    · exact Nat.zero_le _
    · exact Nat.le_add_left 3 rest.length
  | requestMemory =>
    rcases rest with _ | ⟨_, _ | ⟨_, _ | ⟨_, _ | ⟨_, rest⟩⟩⟩⟩
    iterate 4 exact Nat.zero_le _
    exact Nat.le_add_left 5 rest.length
  | setMemory =>
    rcases rest with _ | ⟨_, _ | ⟨_, _ | ⟨length, bytes⟩⟩⟩
    iterate 3 exact Nat.zero_le _
    simp only [decodeTagged]
    split_ifs with hl
    · exact Nat.zero_le _
    · rw [List.length_take] at hl
      simp only [Decoded.consumed, List.length_cons]
      omega
  | setRegister =>
    rcases rest with _ | ⟨id, value⟩
    · exact Nat.zero_le _
    · simp only [decodeTagged]
      cases Register.ofId? id with
      | none => exact Nat.le_add_left 2 value.length
      | some r =>
        simp only
        split_ifs
        · rcases value with _ | ⟨_, rest⟩
          · exact Nat.zero_le _
          · exact Nat.le_add_left 3 rest.length
        · rcases value with _ | ⟨_, _ | ⟨_, rest⟩⟩
          · exact Nat.zero_le _
          · exact Nat.zero_le _
          · exact Nat.le_add_left 4 rest.length

/-- A command of fixed fields that is complete stays.

**Proof sketch.** One case for each kind of commands: once all fields are there, the decoder does
not look behind them. -/
lemma decodeTagged_append_of_not_chunked {first : UInt8} {tag : CommandTag} {rest : Bytes}
    (more : Bytes) (hc : tag.isChunked = false) (h : decodeTagged first tag rest ≠ .incomplete) :
    decodeTagged first tag (rest ++ more) = decodeTagged first tag rest := by
  cases tag with
  | step | stepIgnoringBreakpoints | stop | requestDump | requestStack => rfl
  | inputString => cases hc
  | inputKey =>
    rcases rest with _ | ⟨_, _⟩
    · exact absurd rfl h
    · rfl
  | setBreakpoint | clearBreakpoint =>
    rcases rest with _ | ⟨_, _ | ⟨_, _⟩⟩
    · exact absurd rfl h
    · exact absurd rfl h
    · rfl
  | requestMemory =>
    rcases rest with _ | ⟨_, _ | ⟨_, _ | ⟨_, _ | ⟨_, _⟩⟩⟩⟩
    iterate 4 exact absurd rfl h
    rfl
  | setMemory =>
    rcases rest with _ | ⟨_, _ | ⟨_, _ | ⟨length, bytes⟩⟩⟩
    iterate 3 exact absurd rfl h
    have hl : length.toNat ≤ bytes.length := by
      refine Nat.le_of_not_lt fun hlt => h (if_pos ?_)
      rw [List.length_take]
      omega
    simp only [decodeTagged, List.cons_append, List.take_append_of_le_length hl]
  | setRegister =>
    rcases rest with _ | ⟨id, value⟩
    · exact absurd rfl h
    · simp only [decodeTagged, List.cons_append] at h ⊢
      cases hr : Register.ofId? id with
      | none => rfl
      | some r =>
        simp only [hr] at h ⊢
        split_ifs at h ⊢ with hw
        · rcases value with _ | ⟨_, _⟩
          · exact absurd rfl h
          · rfl
        · rcases value with _ | ⟨_, _ | ⟨_, _⟩⟩
          · exact absurd rfl h
          · exact absurd rfl h
          · rfl

/-- A command that is complete stays, unless it is chunked and the bytes end at a seam.

**Proof sketch.** Only a string is read in chunks. What is read of it stays unless it ends with the
bytes at a seam; for the other kinds this is `decodeTagged_append_of_not_chunked`. -/
lemma decodeTagged_append {first : UInt8} {tag : CommandTag} {rest more : Bytes}
    (h : decodeTagged first tag rest ≠ .incomplete)
    (hs : (decodeTagged first tag rest).consumed = (first :: rest).length → tag.isChunked = true →
      ¬ Chunk.Seam first (first :: rest ++ more) (first :: rest).length) :
    decodeTagged first tag (rest ++ more) = decodeTagged first tag rest := by
  by_cases hc : tag = .inputString
  · subst hc
    simp only [decodeTagged] at h hs ⊢
    cases hr : Chunk.readFrom? first (first :: rest) with
    | none =>
      rw [hr] at h
      exact absurd rfl h
    | some r =>
      rw [hr] at hs
      rw [readFrom?_cons_append hr fun hn => hs hn rfl]
  · refine decodeTagged_append_of_not_chunked more ?_ h
    cases tag <;> first | rfl | exact absurd rfl hc

/-- **The decoder of commands** obeys the laws.

**Proof sketch.** A byte of no kind opens no frame, and behind the byte of a kind each law is
proved about `decodeTagged`. -/
theorem streams : format.Streams .command opens chunked where
  opens_of_chunked {b} h := by
    simp only [chunked, Option.any_eq_true] at h
    obtain ⟨tag, ht, -⟩ := h
    simp only [opens, ht, Option.isSome_some]
  decode_unknown {first} rest h := by
    have hn : CommandTag.ofByte? first = none := by
      simpa only [opens, Option.isSome_eq_false_iff, Option.isNone_iff_eq_none] using h
    simp only [format, decode, hn]
  consumed_le bytes := by
    cases bytes with
    | nil => exact Nat.le_refl 0
    | cons first rest =>
      simp only [format, decode]
      cases CommandTag.ofByte? first with
      | none => exact consumed_resync_le ..
      | some tag => exact consumed_decodeTagged_le first tag rest
  decode_append {first rest more} ho h hs := by
    obtain ⟨tag, ht⟩ := Option.isSome_iff_exists.1 ho
    simp only [format, decode, chunked, ht, List.cons_append, Option.any_some] at h hs ⊢
    exact decodeTagged_append h hs

end Command

/-! ## Events -/

/-- Whether the payload of a kind of event is chunked. -/
def EventTag.isChunked : EventTag → Bool
  | output | errorOutput | dumpResult | memoryResult | stackResult => true
  | _ => false

namespace Event

/-- Whether a byte opens a chunked event. -/
def chunked (b : UInt8) : Bool := (EventTag.ofByte? b).any EventTag.isChunked

/-- No chunked event takes more bytes than there are. -/
lemma consumed_decodeChunked_le (first : UInt8) (rest : Bytes) (make : Bytes → Event) :
    (decodeChunked first rest make).consumed ≤ (first :: rest).length := by
  simp only [decodeChunked]
  split
  case h_1 h => exact Chunk.le_length_of_readFrom? h
  case h_2 => exact Nat.zero_le _

/-- No event takes more bytes than there are.

**Proof sketch.** One case for each way in which an event is read: in chunks, as one byte, or as
three. -/
lemma consumed_decodeTagged_le (first : UInt8) (tag : EventTag) (rest : Bytes) :
    (decodeTagged first tag rest).consumed ≤ (first :: rest).length := by
  cases tag with
  | output | errorOutput | dumpResult | memoryResult | stackResult =>
    exact consumed_decodeChunked_le ..
  | keyRequested | stringRequested | endOfProgram | crashed =>
    exact Nat.succ_le_succ (Nat.zero_le _)
  | breakpointHit =>
    rcases rest with _ | ⟨_, _ | ⟨_, rest⟩⟩
    · exact Nat.zero_le _
    · exact Nat.zero_le _
    · exact Nat.le_add_left 3 rest.length

/-- A chunked event that is complete stays, unless the bytes end at a seam. -/
lemma decodeChunked_append {first : UInt8} {rest more : Bytes} {make : Bytes → Event}
    (h : decodeChunked first rest make ≠ .incomplete)
    (hs : (decodeChunked first rest make).consumed = (first :: rest).length →
      ¬ Chunk.Seam first (first :: rest ++ more) (first :: rest).length) :
    decodeChunked first (rest ++ more) make = decodeChunked first rest make := by
  simp only [decodeChunked] at h hs ⊢
  cases hr : Chunk.readFrom? first (first :: rest) with
  | none =>
    rw [hr] at h
    exact absurd rfl h
  | some r =>
    rw [hr] at hs
    rw [readFrom?_cons_append hr hs]

/-- An event that is complete stays, unless it is chunked and the bytes end at a seam.

**Proof sketch.** Only events that are read in chunks look further than what they take, and there
what is read stays unless it ends at a seam. -/
lemma decodeTagged_append {first : UInt8} {tag : EventTag} {rest more : Bytes}
    (h : decodeTagged first tag rest ≠ .incomplete)
    (hs : (decodeTagged first tag rest).consumed = (first :: rest).length → tag.isChunked = true →
      ¬ Chunk.Seam first (first :: rest ++ more) (first :: rest).length) :
    decodeTagged first tag (rest ++ more) = decodeTagged first tag rest := by
  cases tag with
  | output | errorOutput | dumpResult | memoryResult | stackResult =>
    exact decodeChunked_append h fun hn => hs hn rfl
  | keyRequested | stringRequested | endOfProgram | crashed => rfl
  | breakpointHit =>
    rcases rest with _ | ⟨_, _ | ⟨_, _⟩⟩
    · exact absurd rfl h
    · exact absurd rfl h
    · rfl

/-- **The decoder of events** obeys the laws.

**Proof sketch.** A byte of no kind opens no frame, and behind the byte of a kind each law is
proved about `decodeTagged`. -/
theorem streams : format.Streams .event opens chunked where
  opens_of_chunked {b} h := by
    simp only [chunked, Option.any_eq_true] at h
    obtain ⟨tag, ht, -⟩ := h
    simp only [opens, ht, Option.isSome_some]
  decode_unknown {first} rest h := by
    have hn : EventTag.ofByte? first = none := by
      simpa only [opens, Option.isSome_eq_false_iff, Option.isNone_iff_eq_none] using h
    simp only [format, decode, hn]
  consumed_le bytes := by
    cases bytes with
    | nil => exact Nat.le_refl 0
    | cons first rest =>
      simp only [format, decode]
      cases EventTag.ofByte? first with
      | none => exact consumed_resync_le ..
      | some tag => exact consumed_decodeTagged_le first tag rest
  decode_append {first rest more} ho h hs := by
    obtain ⟨tag, ht⟩ := Option.isSome_iff_exists.1 ho
    simp only [format, decode, chunked, ht, List.cons_append, Option.any_some] at h hs ⊢
    exact decodeTagged_append h hs

end Event

end DebugWire
