import DebugWire.Proofs.Wire.CommandStream
import DebugWire.Proofs.Wire.Fragmentation

set_option relaxedAutoImplicit false
set_option autoImplicit false

/-!
# Scripts read in chunks

The stream of a script may be cut at any places but the *joints* of its strings, where one full
frame of a string is followed by the next frame of the same string. If besides no string goes on in
the next command, the commands come back one for one, as their frames carry them.

## Main definitions

* `DebugWire.Format.Codec.Joint` — a place between two frames of one value.
* `DebugWire.Script.Joint` — a place between two frames of one string of a script.

## Main results

* `DebugWire.Format.Codec.joint_of_seam` — the seams of a stream are such places.
* `DebugWire.Script.feed_encode` — a script read in chunks.
-/

namespace DebugWire

/-! ## Seams of streams of values -/

namespace Format.Codec

variable {α : Type} {f : Format α} {chunked : UInt8 → Bool} (codec : f.Codec chunked)

/-- The place is a *joint* of the stream of the values: within the frames of one of them, some full
frames end there and there are more to come. -/
def Joint (as : List α) (p : ℕ) : Prop :=
  ∃ before a after bytes j, as = before ++ a :: after ∧ codec.encodeAll before = .ok bytes ∧ 0 < j ∧
    Chunk.maxSize * j < (codec.payload a).length ∧ p = bytes.length + (2 + Chunk.maxSize) * j

/-- The joints of some of the values are, behind another value, joints of all. -/
lemma Joint.cons {codec : f.Codec chunked} {a : α} {as : List α} {bytes : Bytes} {p : ℕ}
    (he : codec.encode a = .ok bytes) (h : codec.Joint as p) :
    codec.Joint (a :: as) (bytes.length + p) := by
  obtain ⟨before, b, after, more, j, rfl, hm, hj, hlt, rfl⟩ := h
  have hall := codec.encodeAll_cons_eq_ok.2 ⟨bytes, more, he, hm, rfl⟩
  refine ⟨a :: before, b, after, bytes ++ more, j, rfl, hall, hj, hlt, ?_⟩
  rw [List.length_append, Nat.add_assoc]

/-- **The seams of a stream** of values of which none goes on in the next one are joints.

**Proof sketch.** Induction on the values. A seam at the front lies within the frames of the first
one, since nothing goes on from them. The other seams are those of the stream behind. -/
theorem joint_of_seam {as : List α} {stream : Bytes} {p : ℕ} (he : codec.encodeAll as = .ok stream)
    (hc : as.IsChain fun a b => codec.runsInto a b = false) (hs : f.Seam chunked stream p) :
    codec.Joint as p := by
  induction as generalizing stream p with
  | nil =>
    obtain rfl : [] = stream := Except.ok.inj he
    exact absurd hs.lt_length (Nat.not_lt_zero p)
  | cons a as ih =>
    obtain ⟨bytes, rest, hb, hr, rfl⟩ := codec.encodeAll_cons_eq_ok.1 he
    have hstops : codec.Stops [a] rest := by
      refine codec.stops_of_encodeAll hr fun a' ha b hb => ?_
      obtain rfl : a = a' := Option.some.inj ha
      exact (List.isChain_cons.1 hc).1 b hb
    have hd := codec.decode_encode_append hb hstops
    generalize hstream : bytes ++ rest = stream at hs hd
    cases hs with
    | @here tag _ _ htag h =>
      have hhead : stream.head? = some (codec.byte a) := by
        rw [← hstream, List.head?_append, codec.head?_encode hb]
        rfl
      obtain rfl : tag = codec.byte a := Option.some.inj (h.head?.symm.trans hhead)
      have hp : (codec.payload? a).isSome = true := (codec.isSome_payload? a).trans htag
      rw [← hstream, codec.eq_chunkEncode hp hb] at h
      obtain ⟨j, hj, hlt, rfl⟩ := Chunk.exists_of_seam_encode_append h (hstops a rfl)
      exact ⟨[], a, as, [], j, rfl, rfl, hj, hlt, (Nat.zero_add _).symm⟩
    | @later _ q _ h =>
      rw [hd, ← hstream] at h
      rw [hd]
      simp only [Decoded.consumed, List.drop_left] at h ⊢
      exact (ih hr hc.tail h).cons hb

end Format.Codec

/-! ## Scripts -/

namespace Script

/-- The place is a *joint* of the stream of a script: within the frames of one of its strings, one
or more full frames end there and there are more to come. -/
def Joint (cs : Script) (p : ℕ) : Prop :=
  ∃ before text after bytes j, cs = before ++ .inputString text :: after ∧
  Script.encode before = .ok bytes ∧
    0 < j ∧ Chunk.maxSize * j < (Utf8.encode text.repaired).length ∧
    p = bytes.length + (2 + Chunk.maxSize) * j

/-- The joints of a script, by the frames: those of its strings are all that there are. -/
lemma joint_of_codec_joint {cs : Script} {p : ℕ} (h : Command.codec.Joint cs p) : Joint cs p := by
  obtain ⟨before, c, after, bytes, j, rfl, he, hj, hlt, rfl⟩ := h
  match c, hlt with
  | .inputString text, hlt =>
    exact ⟨before, text, after, bytes, j, rfl, (encode_eq_encodeAll before).trans he, hj, hlt, rfl⟩

/-- **A script read in chunks** gives its commands one for one, as their frames carry them, and
leaves no bytes, if no string goes on in the next command and no cut is a joint.

**Proof sketch.** The seams of the stream are joints, so feeding the chunks agrees with draining the
stream. That gives the commands, and no unknown bytes that could have been cut. -/
theorem feed_encode {cs : Script} {stream : Bytes} {chunks : List Bytes}
    (he : Script.encode cs = .ok stream) (hc : cs.IsChain fun c d => Command.runsInto c d = false)
    (hf : chunks.flatten = stream) (hj : ∀ p, Cut chunks p → ¬ Joint cs p) :
    Reader.empty.feed Command.format chunks =
      ((cs.map Command.carried).map .value, Reader.empty) := by
  rw [encode_eq_encodeAll] at he
  rw [← Command.codec_runsInto] at hc
  obtain ⟨hg, hr⟩ := Reader.glued_feed Command.streams chunks fun p hp hs =>
    hj p hp (joint_of_codec_joint (Command.codec.joint_of_seam he hc (hf ▸ hs)))
  rw [hf, Command.codec.drain_encodeAll he, Command.codec.merged_of_isChain hc,
    Command.codec_carried] at hg hr
  exact Prod.ext (Item.eq_map_value_of_glued (hg.trans (Item.glued_map_value _))) hr

end Script

end DebugWire
