import DebugWire.Proofs.Wire.Canonical

set_option relaxedAutoImplicit false
set_option autoImplicit false

/-!
# The grammar of payloads

A payload is written as frames of one tag, as many as its length needs and all full but the last. At
the front of bytes there is a payload if full frames of their first byte as tag and one more frame
stand there, and nothing goes on from that last frame: it is not full, or the bytes end behind it,
or another byte than the tag comes next. Bytes are read exactly by this grammar. Where it does not
apply, they are the beginning of a payload, and never an error.

## Main definitions

* `DebugWire.Chunk.Opens` — the payload at the front of bytes.

## Main results

* `DebugWire.Chunk.exists_carries_encode` — the frames that are written.
* `DebugWire.Chunk.readFrom?_eq_some_iff` — the frames that are read.
* `DebugWire.Chunk.payload_grammar` — both.
-/

namespace DebugWire.Chunk

variable {tag : UInt8} {last frames bytes payload : Bytes} {full : List Bytes} {n : ℕ}

/-! ## Frames that are written -/

/-- What fits a frame takes one frame, also if it is empty. -/
lemma count_of_le (h : n ≤ maxSize) : count n = 1 := by
  simp only [count, maxSize] at h ⊢
  omega

/-- A full frame in front of more is one frame more. -/
lemma count_maxSize_add (h : 0 < n) : count (maxSize + n) = count n + 1 := by
  simp only [count, maxSize]
  omega

/-- **The frames of a payload** carry it, and there are as many as its length needs.

**Proof sketch.** Induction on the payload. The last piece is a frame of its own; a full piece in
front adds a full frame, and one to the count. -/
theorem exists_carries_encode (tag : UInt8) (payload : Bytes) :
    ∃ full last, Carries tag full last (encode tag payload) ∧ payload = full.flatten ++ last ∧
      full.length + 1 = count payload.length := by
  induction payload using payload_induction with
  | last piece h => exact ⟨[], piece, ⟨by simp, h, encode_of_le tag h⟩, rfl, (count_of_le h).symm⟩
  | more piece payload h hp ih =>
    obtain ⟨full, last, hc, hpayload, hcount⟩ := ih
    refine ⟨piece :: full, last, ?_, ?_, ?_⟩
    · rw [encode_append tag h hp]
      exact hc.cons h
    · rw [List.flatten_cons, List.append_assoc, ← hpayload]
    · rw [List.length_append, h, count_maxSize_add (List.length_pos_iff.2 hp), ← hcount,
        List.length_cons]

/-- Frames take two bytes each besides what they carry.

**Proof sketch.** Induction on the full frames, each of which has two bytes more than its piece. -/
lemma Carries.length_eq (h : Carries tag full last frames) :
    frames.length = (full.flatten ++ last).length + 2 * (full.length + 1) := by
  induction full generalizing frames with
  | nil =>
    obtain ⟨-, -, rfl⟩ := h
    simp only [List.flatMap_nil, List.nil_append, length_frame, List.flatten_nil, List.length_nil]
    omega
  | cons piece full ih =>
    obtain ⟨-, others, hothers, rfl⟩ := h.exists_of_cons
    have hlen := ih hothers
    simp only [List.length_append, length_frame, List.flatten_cons, List.length_cons] at hlen ⊢
    omega

/-! ## Frames that are read -/

/-- The first `n` bytes are the frames of a payload, and nothing goes on from the last one. -/
def Opens (tag : UInt8) (bytes payload : Bytes) (n : ℕ) : Prop :=
  n ≤ bytes.length ∧ ∃ full last, Carries tag full last (bytes.take n) ∧
  payload = full.flatten ++ last ∧
    (last.length < maxSize ∨ bytes[n]? ≠ some tag)

/-- What is read on from a frame takes more than that frame. -/
lemma map_readFrom?_ne (tag : UInt8) (front rest payload : Bytes) (k : ℕ) :
    (readFrom? tag rest).map (fun r => (front ++ r.1, k + r.2)) ≠ some (payload, k) := by
  intro h
  obtain ⟨⟨more, m⟩, hmore, he⟩ := Option.map_eq_some_iff.1 h
  have hm := two_le_of_readFrom? hmore
  have hk : k + m = k := (Prod.mk.inj he).2
  omega

/-- **What is read** from bytes that begin with the tag is the payload at their front.

**Proof sketch.** Bytes from which something is read begin with frames that carry it. If the last of
them were full and the tag came next, reading would have gone on and taken more bytes. -/
theorem readFrom?_eq_some_iff (htag : bytes.head? = some tag) :
    readFrom? tag bytes = some (payload, n) ↔ Opens tag bytes payload n := by
  have hhead : (bytes.drop n).head? = bytes[n]? := List.head?_drop
  constructor
  · intro h
    obtain ⟨full, last, hc, rfl⟩ := exists_carries_of_readFrom? htag h
    have hle := le_length_of_readFrom? h
    refine ⟨hle, full, last, hc, rfl, ?_⟩
    by_contra hon
    obtain ⟨hlast, hnext⟩ := not_or.1 hon
    have hread := hc.readFrom?_append (bytes.drop n)
    rw [List.take_append_drop, h, hhead, List.length_take_of_le hle,
      if_pos ⟨hc.2.1.antisymm (not_lt.1 hlast), not_not.1 hnext⟩] at hread
    exact map_readFrom?_ne tag _ _ _ n hread.symm
  · rintro ⟨hle, full, last, hc, rfl, hstop⟩
    have hread := hc.readFrom?_append (bytes.drop n)
    rwa [List.take_append_drop, hhead, List.length_take_of_le hle, if_neg] at hread
    rintro ⟨hlast, hnext⟩
    rcases hstop with hstop | hstop
    · omega
    · exact hstop hnext

/-- Reading bytes takes their first one for the tag. -/
lemma read?_eq_readFrom? (htag : bytes.head? = some tag) : read? bytes = readFrom? tag bytes := by
  cases bytes with
  | nil => cases htag
  | cons b rest =>
    obtain rfl : b = tag := Option.some.inj htag
    rfl

/-- The frames of a payload in front of any bytes are read as that payload and no more exactly if
nothing goes on from it. -/
lemma read?_encode_append_eq_some_iff (tag : UInt8) (payload rest : Bytes) :
    read? (encode tag payload ++ rest) = some (payload, (encode tag payload).length) ↔
      ¬ (EndsFull payload ∧ rest.head? = some tag) := by
  rw [read?_eq_readFrom? (head?_encode_append tag payload rest), readFrom?_encode_append]
  split_ifs with h
  · exact iff_of_false (map_readFrom?_ne tag _ _ _ _) (not_not_intro h)
  · exact iff_of_true rfl h

/-- **The grammar of payloads**, for any tag.
* A payload is written as frames that carry it, as many as its length needs, and two bytes each are
  added to it. Behind it any bytes may follow but the tag behind a full frame: then it is read back
  as it was, and only its frames are taken.
* Bytes that begin with the tag are read as the payload that they open with. If they open with none,
  more bytes have to come, and there is no error.

**Proof sketch.** The first part is by induction on the payload, piece by piece, and the second is
`readFrom?_eq_some_iff`. -/
theorem payload_grammar (tag : UInt8) :
    (∀ payload rest : Bytes,
      (∃ full last, Carries tag full last (encode tag payload) ∧ payload = full.flatten ++ last ∧
        full.length + 1 = count payload.length) ∧
      (encode tag payload).length = payload.length + 2 * count payload.length ∧
      (read? (encode tag payload ++ rest) = some (payload, (encode tag payload).length) ↔
        ¬ (EndsFull payload ∧ rest.head? = some tag))) ∧
    ∀ bytes : Bytes, bytes.head? = some tag →
      (∀ payload n, read? bytes = some (payload, n) ↔ Opens tag bytes payload n) ∧
      (read? bytes = none ↔ ∀ payload n, ¬ Opens tag bytes payload n) := by
  refine ⟨fun payload rest =>
    ⟨exists_carries_encode tag payload, ?_, read?_encode_append_eq_some_iff tag payload rest⟩,
    fun bytes htag => ?_⟩
  · obtain ⟨full, last, hc, hpayload, hcount⟩ := exists_carries_encode tag payload
    rw [hc.length_eq, ← hpayload, hcount]
  · have hread (payload : Bytes) (n : ℕ) : read? bytes = some (payload, n) ↔
        Opens tag bytes payload n := by
      rw [read?_eq_readFrom? htag, readFrom?_eq_some_iff htag]
    refine ⟨hread, ?_⟩
    rw [Option.eq_none_iff_forall_ne_some, Prod.forall]
    exact forall₂_congr fun payload n => not_congr (hread payload n)

/-- A full frame and one of a single byte are read together, up to a tag that begins the next
payload. Without that single byte, more bytes have to come. -/
theorem payload_grammar_of_full_frame :
    read? (frame 0x74 (List.replicate 255 7) ++ frame 0x74 [8] ++ [0x74]) =
      some (List.replicate 255 7 ++ [8], 260) ∧
      ¬ read? (encode 0x74 (List.replicate 255 7) ++ [0x74]) =
        some (List.replicate 255 7, (encode 0x74 (List.replicate 255 7)).length) := by
  obtain ⟨piece, hpiece⟩ : ∃ piece : Bytes, piece = List.replicate 255 7 := ⟨_, rfl⟩
  have hlength : piece.length = maxSize := by rw [hpiece, List.length_replicate, maxSize]
  have htaken : (frame 0x74 piece ++ frame 0x74 [8]).length = 260 := by
    rw [List.length_append, length_frame, length_frame, hlength]
    rfl
  obtain ⟨hwritten, hread⟩ := payload_grammar 0x74
  rw [← hpiece]
  constructor
  · refine ((hread _ rfl).1 _ _).2 ⟨?_, [piece], [8], ⟨?_, by decide, ?_⟩, ?_, .inl (by decide)⟩
    · rw [List.length_append, htaken]
      exact Nat.le_add_right _ _
    · rintro _ (_ | ⟨_, ⟨⟩⟩)
      exact hlength
    · rw [List.take_left' htaken, List.flatMap_singleton]
    · rw [List.flatten_singleton]
  · refine fun h => (hwritten _ _).2.2.1 h ⟨⟨?_, ?_⟩, rfl⟩
    · exact List.ne_nil_of_length_pos (by rw [hlength]; decide)
    · exact hlength ▸ Nat.dvd_refl maxSize

end DebugWire.Chunk
