import DebugWire.Wire.Chunk
import Mathlib.Data.Nat.Notation
import Mathlib.Tactic.Lemma
import Mathlib.Tactic.SplitIfs

set_option relaxedAutoImplicit false
set_option autoImplicit false

/-!
# Frames of a payload, written and read

Reading the frames that `DebugWire.Chunk.encode` writes gives the payload back, and takes exactly
those frames, with one exception: a payload whose last frame is full is joined with a frame of the
same tag right behind it. For the same reason, what has been read from the front of bytes may change
when more bytes come in only if a full frame ends them and the tag comes next. Such a place is a
*seam*.

## Main definitions

* `DebugWire.Chunk.EndsFull` — the last frame of a payload is full.
* `DebugWire.Chunk.Seam` — a place between a full frame and one that goes on from it.

## Main results

* `DebugWire.Chunk.readFrom?_encode_append` — the frames of a payload in front of any bytes.
* `DebugWire.Chunk.readFrom?_append` — a payload that was read stays when more bytes come in.
* `DebugWire.Chunk.exists_of_seam_encode_append` — the seams within the frames of a payload.
-/

namespace DebugWire.Chunk

/-! ## Payloads piece by piece -/

/-- The last frame of a payload is full: the payload has bytes, and their number is a multiple of
255. -/
def EndsFull (payload : Bytes) : Prop := payload ≠ [] ∧ maxSize ∣ payload.length

instance (payload : Bytes) : Decidable (EndsFull payload) :=
  inferInstanceAs (Decidable (_ ∧ _))

/-- A payload is one piece that fits a frame, or a full piece in front of a payload with bytes.

**Proof sketch.** Strong induction on the length. If the payload does not fit a frame, its first 255
bytes are a full piece, and there are others. -/
@[elab_as_elim]
theorem payload_induction {motive : Bytes → Prop}
    (last : ∀ piece, piece.length ≤ maxSize → motive piece)
    (more : ∀ piece payload, piece.length = maxSize → payload ≠ [] → motive payload →
      motive (piece ++ payload)) (payload : Bytes) : motive payload := by
  induction hn : payload.length using Nat.strongRecOn generalizing payload with
  | ind n ih =>
    rcases Nat.lt_or_ge maxSize payload.length with h | h
    · have hd : (payload.drop maxSize).length = payload.length - maxSize := List.length_drop
      have hpos : 0 < maxSize := by decide
      rw [← List.take_append_drop maxSize payload]
      refine more _ _ (List.length_take_of_le (Nat.le_of_lt h)) ?_ (ih _ (by omega) _ rfl)
      exact List.ne_nil_of_length_pos (by omega)
    · exact last payload h

/-- A frame has two bytes more than its piece: the tag and the length. -/
@[simp]
lemma length_frame (tag : UInt8) (piece : Bytes) : (frame tag piece).length = 2 + piece.length := by
  simp only [frame, List.length_cons]
  omega

/-- A payload that fits a frame is that frame. -/
lemma encode_of_le {payload : Bytes} (tag : UInt8) (h : payload.length ≤ maxSize) :
    encode tag payload = frame tag payload := by
  rcases payload with _ | ⟨b, bs⟩
  · rfl
  · have hd : (b :: bs).drop maxSize = [] := List.drop_eq_nil_of_le h
    rw [encode, if_neg (by simp), pieces, if_neg (by simp), hd, pieces, if_pos (by simp),
      List.take_of_length_le h, List.flatMap_singleton]

/-- A full piece in front of a payload with bytes is the first frame. -/
lemma encode_append {piece payload : Bytes} (tag : UInt8) (h : piece.length = maxSize)
    (hp : payload ≠ []) :
    encode tag (piece ++ payload) = frame tag piece ++ encode tag payload := by
  have hne : (piece ++ payload).isEmpty = false := by simp [hp]
  rw [encode, hne, if_neg (by simp), pieces, hne, if_neg (by simp), List.take_left' h,
    List.drop_left' h, List.flatMap_cons, encode, if_neg (by simpa using hp)]

/-- The frames of a payload begin with the tag. -/
lemma head?_encode_append (tag : UInt8) (payload rest : Bytes) :
    (encode tag payload ++ rest).head? = some tag := by
  induction payload using payload_induction with
  | last piece h => rw [encode_of_le tag h]; rfl
  | more piece payload h hp ih => rw [encode_append tag h hp]; rfl

/-- Whether the last frame is full does not depend on the full frames before it. -/
lemma endsFull_append {piece payload : Bytes} (h : piece.length = maxSize) (hp : payload ≠ []) :
    EndsFull (piece ++ payload) ↔ EndsFull payload := by
  simp only [EndsFull, List.length_append, h, ne_eq, List.append_eq_nil_iff, hp, and_false,
    not_false_eq_true, true_and, Nat.dvd_add_right (Nat.dvd_refl maxSize)]

/-- Of a payload that fits a frame, the last frame is full if it holds 255 bytes.

**Proof sketch.** The length is a multiple of 255 that is neither zero nor greater than 255. -/
lemma endsFull_of_le {payload : Bytes} (h : payload.length ≤ maxSize) :
    EndsFull payload ↔ payload.length = maxSize := by
  constructor
  · rintro ⟨hne, k, hk⟩
    have hpos := List.length_pos_iff.2 hne
    rcases k with _ | _ | k
    · omega
    · omega
    · rw [Nat.mul_add] at hk
      have : 0 < maxSize := by decide
      omega
  · intro hl
    refine ⟨List.ne_nil_of_length_pos ?_, hl ▸ Nat.dvd_refl maxSize⟩
    rw [hl]
    decide

/-! ## Reading frame by frame -/

/-- The length byte of a frame gives the length of its piece. -/
private lemma toNat_length {piece : Bytes} (h : piece.length ≤ maxSize) :
    (UInt8.ofNat piece.length).toNat = piece.length := by
  rw [UInt8.toNat_ofNat']
  exact Nat.mod_eq_of_lt (Nat.lt_succ_of_le h)

/-- Bytes that begin with two frames begin with the same one. -/
lemma frame_append_inj {t t' : UInt8} {piece piece' rest rest' : Bytes} (h : piece.length ≤ maxSize)
    (h' : piece'.length ≤ maxSize) (e : frame t piece ++ rest = frame t' piece' ++ rest') :
    t = t' ∧ piece = piece' ∧ rest = rest' := by
  simp only [frame, List.cons_append, List.cons.injEq] at e
  obtain ⟨ht, hl, e⟩ := e
  have hl : piece.length = piece'.length := by
    rw [← toNat_length h, hl, toNat_length h']
  obtain ⟨hp, hr⟩ := List.append_inj e hl
  exact ⟨ht, hp, hr⟩

/-- Reading on from a frame: it is the last one unless it is full and the tag comes next. -/
lemma readFrom?_frame_append (tag t : UInt8) {piece : Bytes} (rest : Bytes)
    (h : piece.length ≤ maxSize) :
    readFrom? tag (frame t piece ++ rest) =
      if piece.length = maxSize ∧ rest.head? = some tag then
        (readFrom? tag rest).map fun r => (piece ++ r.1, (frame t piece).length + r.2)
      else some (piece, (frame t piece).length) := by
  rw [frame, List.cons_append, List.cons_append, readFrom?]
  simp only [toNat_length h, List.take_left, List.drop_left, Nat.lt_irrefl, if_false]
  rw [← frame, length_frame]

/-- Bytes begin with a frame, or they are too short for the first one: its length is missing, or
some of as many bytes as the length says.

**Proof sketch.** By whether there is a length, and as many bytes behind it. If so they are the
piece. -/
lemma exists_frame_or_short (bytes : Bytes) :
    (∃ t piece rest, piece.length ≤ maxSize ∧ bytes = frame t piece ++ rest) ∨
      bytes = [] ∨ (∃ t, bytes = [t]) ∨ ∃ t length rest, bytes = t :: length :: rest ∧
        rest.length < length.toNat := by
  match bytes with
  | [] => exact .inr (.inl rfl)
  | [t] => exact .inr (.inr (.inl ⟨t, rfl⟩))
  | t :: length :: rest =>
    rcases Nat.lt_or_ge rest.length length.toNat with hl | hl
    · exact .inr (.inr (.inr ⟨t, length, rest, rfl, hl⟩))
    · have hp : (rest.take length.toNat).length = length.toNat := List.length_take_of_le hl
      refine .inl ⟨t, rest.take length.toNat, rest.drop length.toNat, ?_, ?_⟩
      · rw [hp]
        exact Nat.le_of_lt_succ length.toNat_lt
      · rw [frame, hp, List.cons_append, List.cons_append, List.take_append_drop, UInt8.ofNat_toNat]

/-- Bytes from which something can be read begin with a frame.

**Proof sketch.** Nothing can be read from bytes that are too short, in each of the three ways in
which they may be. -/
lemma exists_frame_of_readFrom? {tag : UInt8} {bytes payload : Bytes} {n : ℕ}
    (h : readFrom? tag bytes = some (payload, n)) :
    ∃ t piece rest, piece.length ≤ maxSize ∧ bytes = frame t piece ++ rest := by
  obtain hframe | rfl | ⟨t, rfl⟩ | ⟨t, length, rest, rfl, hl⟩ := exists_frame_or_short bytes
  · exact hframe
  · simp [readFrom?] at h
  · simp [readFrom?] at h
  · have short : (rest.take length.toNat).length < length.toNat := by
      rw [List.length_take]
      omega
    rw [readFrom?] at h
    simp only [if_pos short] at h
    cases h

/-- What is read from bytes is the piece of their first frame, or that piece and what is read from
the rest.

**Proof sketch.** Strong induction on the number of bytes. What is read begins with a frame, and
either that is all or the rest is read as well, which is shorter. -/
@[elab_as_elim]
theorem readFrom?_induction {tag : UInt8}
    {motive : (bytes payload : Bytes) → (n : ℕ) → readFrom? tag bytes = some (payload, n) → Prop}
    (last : ∀ t piece rest, piece.length ≤ maxSize →
      ¬(piece.length = maxSize ∧ rest.head? = some tag) →
      ∀ h, motive (frame t piece ++ rest) piece (frame t piece).length h)
    (more : ∀ t piece rest payload n, piece.length = maxSize → rest.head? = some tag →
      ∀ h, motive rest payload n h →
      ∀ h, motive (frame t piece ++ rest) (piece ++ payload) ((frame t piece).length + n) h)
    {bytes payload : Bytes} {n : ℕ} (h : readFrom? tag bytes = some (payload, n)) :
    motive bytes payload n h := by
  induction hk : bytes.length using Nat.strongRecOn generalizing bytes payload n with
  | ind k ih =>
    obtain ⟨t, piece, rest, hp, rfl⟩ := exists_frame_of_readFrom? h
    have hf := h
    rw [readFrom?_frame_append tag t rest hp] at hf
    split_ifs at hf with hc
    · obtain ⟨⟨payload', n'⟩, hr, he⟩ := Option.map_eq_some_iff.1 hf
      obtain ⟨rfl, rfl⟩ := Prod.mk.inj he
      refine more t piece rest payload' n' hc.1 hc.2 hr (ih rest.length ?_ hr rfl) h
      rw [← hk, List.length_append, length_frame]
      omega
    · obtain ⟨rfl, rfl⟩ := Prod.mk.inj (Option.some.inj hf)
      exact last t piece rest hp hc h

/-- The frames that were read are among the bytes. -/
lemma le_length_of_readFrom? {tag : UInt8} {bytes payload : Bytes} {n : ℕ}
    (h : readFrom? tag bytes = some (payload, n)) : n ≤ bytes.length := by
  induction h using readFrom?_induction with
  | last t piece rest _ _ _ => simp
  | more t piece rest payload n _ _ _ ih _ =>
    rw [List.length_append]
    omega

/-! ## Round trip -/

/-- **The frames of a payload in front of any bytes** are read as that payload. Only if its last
frame is full and the tag comes next, the payload of those bytes is joined to it.

**Proof sketch.** Induction on the payload, piece by piece. A full piece with more behind it is
followed by the tag, so reading goes on to the frames of the rest; the last piece decides. -/
theorem readFrom?_encode_append (tag : UInt8) (payload rest : Bytes) :
    readFrom? tag (encode tag payload ++ rest) =
      if EndsFull payload ∧ rest.head? = some tag then
        (readFrom? tag rest).map fun r => (payload ++ r.1, (encode tag payload).length + r.2)
      else some (payload, (encode tag payload).length) := by
  induction payload using payload_induction with
  | last piece h =>
    simp only [encode_of_le tag h, readFrom?_frame_append tag tag rest h, endsFull_of_le h]
  | more piece payload h hp ih =>
    rw [encode_append tag h hp, List.append_assoc,
      readFrom?_frame_append tag tag _ (Nat.le_of_eq h),
      if_pos ⟨h, head?_encode_append tag payload rest⟩, ih]
    simp only [endsFull_append h hp]
    split_ifs with hc
    · rw [Option.map_map]
      congr 1
      funext r
      simp only [Function.comp_apply, List.append_assoc, List.length_append]
      rw [Nat.add_assoc]
    · rw [Option.map_some, List.length_append]

/-! ## Seams -/

/-- The place is a *seam* of the bytes: up to it there are one or more full frames of the tag, and
then the tag again. -/
inductive Seam (tag : UInt8) : Bytes → ℕ → Prop
  /-- The seam behind the first frame. -/
  | first {piece rest : Bytes} : piece.length = maxSize → rest.head? = some tag →
      Seam tag (frame tag piece ++ rest) (frame tag piece).length
  /-- A seam behind a later one. -/
  | next {piece rest : Bytes} {p : ℕ} : piece.length = maxSize → Seam tag rest p →
      Seam tag (frame tag piece ++ rest) ((frame tag piece).length + p)

/-- Bytes with a seam begin with the tag, as does the frame in front of it. -/
lemma Seam.head? {tag : UInt8} {bytes : Bytes} {p : ℕ} (h : Seam tag bytes p) :
    bytes.head? = some tag := by
  cases h <;> rfl

/-- A seam is not at the end of the bytes.

**Proof sketch.** Induction on the seam: bytes follow the first frame, because the next tag does. -/
lemma Seam.lt_length {tag : UInt8} {bytes : Bytes} {p : ℕ} (h : Seam tag bytes p) :
    p < bytes.length := by
  induction h with
  | @first piece rest _ hr =>
    have hne : rest ≠ [] := by
      rintro rfl
      simp at hr
    have := List.length_pos_iff.2 hne
    rw [List.length_append]
    omega
  | next _ _ ih =>
    rw [List.length_append]
    omega

/-- A seam has a full frame before it, so it is more than 255 bytes in. -/
lemma Seam.maxSize_lt {tag : UInt8} {bytes : Bytes} {p : ℕ} (h : Seam tag bytes p) :
    maxSize < p := by
  cases h with
  | first h _ => rw [length_frame, h]; omega
  | next h _ => rw [length_frame, h]; omega

/-- Seams stay when more bytes come in, because they only look at what is there. -/
lemma Seam.append {tag : UInt8} {bytes : Bytes} {p : ℕ} (h : Seam tag bytes p) (more : Bytes) :
    Seam tag (bytes ++ more) p := by
  induction h with
  | first h hr =>
    rw [List.append_assoc]
    exact .first h (by rw [List.head?_append, hr]; rfl)
  | next h _ ih =>
    rw [List.append_assoc]
    exact .next h ih

/-- The seams of bytes that begin with a frame.

**Proof sketch.** The frame at the beginning is determined by the bytes, so a seam is behind it, if
it is full and has the tag and the tag comes next, or is a seam of the rest. -/
lemma seam_frame_append_iff {tag t : UInt8} {piece rest : Bytes} {p : ℕ}
    (h : piece.length ≤ maxSize) :
    Seam tag (frame t piece ++ rest) p ↔
      t = tag ∧ piece.length = maxSize ∧ (rest.head? = some tag ∧ p = (frame t piece).length ∨
        ∃ q, Seam tag rest q ∧ p = (frame t piece).length + q) := by
  constructor
  · intro hs
    generalize hb : frame t piece ++ rest = bytes at hs
    cases hs with
    | first hl hr =>
      obtain ⟨rfl, rfl, rfl⟩ := frame_append_inj h (Nat.le_of_eq hl) hb
      exact ⟨rfl, hl, .inl ⟨hr, rfl⟩⟩
    | next hl hq =>
      obtain ⟨rfl, rfl, rfl⟩ := frame_append_inj h (Nat.le_of_eq hl) hb
      exact ⟨rfl, hl, .inr ⟨_, hq, rfl⟩⟩
  · rintro ⟨rfl, hl, ⟨hr, rfl⟩ | ⟨q, hq, rfl⟩⟩
    · exact .first hl hr
    · exact .next hl hq

/-- **More bytes**: what was read from the front of bytes stays when more bytes come in, unless it
took all the bytes and their end turns out to be a seam.

**Proof sketch.** Induction on the frames read. The last one is short, or another byte than the tag
follows; only if it is full and nothing follows yet do the new bytes matter, and then they begin
with the tag exactly if the end is a seam. -/
theorem readFrom?_append {tag : UInt8} {bytes payload more : Bytes} {n : ℕ}
    (h : readFrom? tag bytes = some (payload, n)) (htag : bytes.head? = some tag)
    (hs : n = bytes.length → ¬ Seam tag (bytes ++ more) n) :
    readFrom? tag (bytes ++ more) = some (payload, n) := by
  induction h using readFrom?_induction with
  | last t piece rest hp hc _ =>
    obtain rfl : t = tag := Option.some.inj htag
    rw [List.append_assoc] at hs ⊢
    rw [readFrom?_frame_append t t _ hp, if_neg]
    rintro ⟨hl, hr⟩
    rcases rest with _ | ⟨b, rest⟩
    · exact hs (by simp) (.first hl hr)
    · exact hc ⟨hl, hr⟩
  | more t piece rest payload n hl hr _ ih _ =>
    obtain rfl : t = tag := Option.some.inj htag
    rw [List.append_assoc] at hs ⊢
    have ih := ih hr fun hn hq => hs (by rw [List.length_append, hn]) (.next hl hq)
    rw [readFrom?_frame_append t t _ (Nat.le_of_eq hl),
      if_pos ⟨hl, by rw [List.head?_append, hr]; rfl⟩, ih]
    rfl

/-- **The seams within the frames of a payload** are behind its full frames but the last, if nothing
that follows goes on from the payload.

**Proof sketch.** Induction on the payload, piece by piece. Behind a full piece with more to come
there is a seam, and the others are those of the rest; behind the last piece there is none. -/
theorem exists_of_seam_encode_append {tag : UInt8} {payload rest : Bytes} {p : ℕ}
    (h : Seam tag (encode tag payload ++ rest) p) (hr : EndsFull payload → rest.head? ≠ some tag) :
    ∃ j, 0 < j ∧ maxSize * j < payload.length ∧ p = (2 + maxSize) * j := by
  induction payload using payload_induction generalizing p with
  | last piece hl =>
    rw [encode_of_le tag hl, seam_frame_append_iff hl] at h
    obtain ⟨-, hf, h⟩ := h
    have hr := hr ((endsFull_of_le hl).2 hf)
    rcases h with ⟨hh, -⟩ | ⟨q, hq, -⟩
    · exact absurd hh hr
    · exact absurd hq.head? hr
  | more piece payload hl hp ih =>
    have hpos := List.length_pos_iff.2 hp
    rw [encode_append tag hl hp, List.append_assoc, seam_frame_append_iff (Nat.le_of_eq hl)] at h
    rw [length_frame, hl] at h
    obtain ⟨-, -, ⟨-, rfl⟩ | ⟨q, hq, rfl⟩⟩ := h
    · refine ⟨1, Nat.one_pos, ?_, (Nat.mul_one _).symm⟩
      rw [List.length_append]
      omega
    · obtain ⟨j, hj, hlt, rfl⟩ := ih hq fun he => hr ((endsFull_append hl hp).2 he)
      refine ⟨j + 1, Nat.succ_pos j, ?_, ?_⟩
      · rw [List.length_append, Nat.mul_add]
        omega
      · rw [Nat.mul_add, Nat.mul_one, Nat.add_comm]

end DebugWire.Chunk
