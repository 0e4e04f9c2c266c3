import DebugWire.Proofs.Wire.Drain
import DebugWire.Proofs.Wire.Extension
import Mathlib.Data.List.Induction

set_option relaxedAutoImplicit false
set_option autoImplicit false

/-!
# Reading a stream in chunks

A stream of bytes reaches a reader in chunks, and the reader is drained after each. What it hands
out does not depend on where the stream was cut, with two exceptions that lie in the format. A cut
at a *seam*, between a full frame of a chunked payload and the frame that goes on from it, may end
the payload there. And a run of bytes that open no frame is reported in as many parts as it comes
in, so such reports are compared after adjacent ones have been glued together.

## Main definitions

* `DebugWire.Reader.feed` — the chunks of a stream pushed one at a time, the reader drained after
  each.
* `DebugWire.Cut` — the places at which chunks cut their stream.
* `DebugWire.Format.Seam` — the seams of a stream as a decoder meets them.
* `DebugWire.Item.glued` — items with adjacent reports of unknown bytes made into one.
* `DebugWire.Reader.Agree` — two readings that give the same in this sense.

## Main results

* `DebugWire.Reader.drain_append` — one cut that is no seam.
* `DebugWire.Reader.glued_feed` — any chunks that cut no seam.
* `DebugWire.Reader.feed_agree_drain` — the same for both directions of the wire.
-/

namespace DebugWire

/-! ## Chunks of a stream -/

/-- The effect of chunks that are pushed one at a time, with the reader drained after each. -/
def Reader.feed {α : Type} (f : Format α) (r : Reader) : List Bytes → List (Item α) × Reader
  | [] => ([], r)
  | chunk :: chunks =>
    let (items, r') := (r.push chunk).drain f
    let (more, last) := feed f r' chunks
    (items ++ more, last)

/-- The place is a *cut* of the chunks: some of the first chunks end there. -/
def Cut (chunks : List Bytes) (p : ℕ) : Prop :=
  ∃ before after, chunks = before ++ after ∧ p = before.flatten.length

/-- More chunks leave the cuts that there are, as they come in behind them. -/
lemma Cut.append {chunks : List Bytes} {p : ℕ} (h : Cut chunks p) (more : List Bytes) :
    Cut (chunks ++ more) p := by
  obtain ⟨before, after, rfl, rfl⟩ := h
  exact ⟨before, after ++ more, List.append_assoc .., rfl⟩

/-- Chunks fed one after the other, and a last one. -/
lemma Reader.feed_append_singleton {α : Type} (f : Format α) (r : Reader) (chunks : List Bytes)
    (chunk : Bytes) :
    r.feed f (chunks ++ [chunk]) =
      ((r.feed f chunks).1 ++ (((r.feed f chunks).2.push chunk).drain f).1,
        (((r.feed f chunks).2.push chunk).drain f).2) := by
  induction chunks generalizing r with
  | nil => simp [feed]
  | cons c chunks ih => simp [feed, ih]

/-- Chunks fed one after the other, and more of them. -/
lemma Reader.feed_append {α : Type} (f : Format α) (r : Reader) (chunks more : List Bytes) :
    r.feed f (chunks ++ more) =
      ((r.feed f chunks).1 ++ ((r.feed f chunks).2.feed f more).1,
        ((r.feed f chunks).2.feed f more).2) := by
  induction chunks generalizing r with
  | nil => rfl
  | cons chunk chunks ih => simp only [List.cons_append, feed, ih, List.append_assoc]

/-- What is left of chunks is the beginning of a frame at most, if that was all there was before. -/
lemma Reader.decode_feed {α : Type} {f : Format α} {r : Reader}
    (h : f.decode r.buffer = .incomplete)
    (chunks : List Bytes) : f.decode (r.feed f chunks).2.buffer = .incomplete := by
  induction chunks generalizing r with
  | nil => exact h
  | cons chunk chunks ih => exact ih (decode_drain f (r.buffer ++ chunk))

/-! ## Reports of unknown bytes -/

namespace Item

variable {α : Type}

/-- An item put in front of others. A report of unknown bytes takes in one that comes next: the
first byte is its own, and the numbers of bytes are added up. -/
def glue (i : Item α) (items : List (Item α)) : List (Item α) :=
  match i, items with
  | malformed (.unknownTag d b n), malformed (.unknownTag _ _ m) :: rest =>
    malformed (.unknownTag d b (n + m)) :: rest
  | i, items => i :: items

/-- The items with adjacent reports of unknown bytes made into one. -/
def glued (items : List (Item α)) : List (Item α) := items.foldr glue []

/-- Whether an item is a report of unknown bytes. -/
def isUnknown : Item α → Bool
  | malformed (.unknownTag ..) => true
  | _ => false

/-- Items are glued from the last one on: the first is glued to what the others come to. -/
@[simp]
lemma glued_cons (i : Item α) (items : List (Item α)) :
    glued (i :: items) = glue i (glued items) := rfl

/-- Anything but a report of unknown bytes is kept apart from what follows. -/
lemma glue_of_not_isUnknown {i : Item α} (h : i.isUnknown = false) (items : List (Item α)) :
    glue i items = i :: items := by
  match i, h with
  | value _, _ | malformed (.unsupportedKey _), _ | malformed (.unknownRegister _), _ => rfl

/-- Two reports in a row are glued as one over the bytes of both. -/
lemma glue_glue (d d' : Direction) (b b' : UInt8) (n m : ℕ) (items : List (Item α)) :
    glue (malformed (.unknownTag d b n)) (glue (malformed (.unknownTag d' b' m)) items) =
      glue (malformed (.unknownTag d b (n + m))) items := by
  match items with
  | malformed (.unknownTag _ _ k) :: rest => simp only [glue, Nat.add_assoc]
  | [] | value _ :: _ | malformed (.unsupportedKey _) :: _ | malformed (.unknownRegister _) :: _ =>
    rfl

/-- An item that is glued to others is glued to all that follows them.

**Proof sketch.** Only an error about unknown bytes is glued to anything, and only to another one.
If the next item is one then both are glued together, in either order. -/
lemma glued_glue_append (i : Item α) (items more : List (Item α)) :
    glued (glue i items ++ more) = glue i (glued (items ++ more)) := by
  cases hi : i.isUnknown with
  | false => rw [glue_of_not_isUnknown hi, List.cons_append, glued_cons]
  | true =>
    match i, hi with
    | malformed (.unknownTag d b n), _ =>
      match items with
      | malformed (.unknownTag d' b' m) :: rest =>
        rw [List.cons_append, glued_cons, glue_glue]
        rfl
      | [] | value _ :: _ | malformed (.unsupportedKey _) :: _
      | malformed (.unknownRegister _) :: _ => rfl

/-- Gluing the first items beforehand makes no difference, so items can be glued as they come in. -/
lemma glued_append (items more : List (Item α)) :
    glued (glued items ++ more) = glued (items ++ more) := by
  induction items with
  | nil => rfl
  | cons i items ih => rw [glued_cons, glued_glue_append, ih, List.cons_append, glued_cons]

/-- Gluing leaves the values and the other errors as they are.

**Proof sketch.** Induction on the items. Gluing one item puts it to the error behind it, if both
are of unknown bytes, and such errors are left out on both sides. -/
lemma filter_glued (items : List (Item α)) :
    (glued items).filter (!·.isUnknown) = items.filter (!·.isUnknown) := by
  have step (i : Item α) (items : List (Item α)) :
      (glue i items).filter (!·.isUnknown) = (i :: items).filter (!·.isUnknown) := by
    cases hi : i.isUnknown with
    | false => rw [glue_of_not_isUnknown hi]
    | true =>
      match i, hi with
      | malformed (.unknownTag d b n), _ =>
        match items with
        | malformed (.unknownTag _ _ m) :: rest => rfl
        | [] | value _ :: _ | malformed (.unsupportedKey _) :: _
        | malformed (.unknownRegister _) :: _ => rfl
  induction items with
  | nil => rfl
  | cons i items ih =>
    rw [glued_cons, step]
    simp only [List.filter_cons, ih]

/-- A report of unknown bytes comes first wherever it is glued. -/
lemma exists_glue_unknownTag (d : Direction) (b : UInt8) (n : ℕ) (items : List (Item α)) :
    ∃ m rest, glue (malformed (.unknownTag d b n)) items =
      malformed (.unknownTag d b m) :: rest := by
  match items with
  | malformed (.unknownTag _ _ m) :: rest => exact ⟨n + m, rest, rfl⟩
  | [] => exact ⟨n, [], rfl⟩
  | value a :: rest => exact ⟨n, value a :: rest, rfl⟩
  | malformed (.unsupportedKey c) :: rest => exact ⟨n, malformed (.unsupportedKey c) :: rest, rfl⟩
  | malformed (.unknownRegister c) :: rest => exact ⟨n, malformed (.unknownRegister c) :: rest, rfl⟩

/-- Values are kept apart, only errors about unknown bytes are glued. -/
lemma glued_map_value (values : List α) : glued (values.map value) = values.map value := by
  induction values with
  | nil => rfl
  | cons a values ih => rw [List.map_cons, glued_cons, ih, glue_of_not_isUnknown rfl]

/-- Items that are glued to values only were those values.

**Proof sketch.** Induction on the items. An item that is no error of unknown bytes stays in front;
an error of such bytes would leave one of that kind in front, which is no value. -/
lemma eq_map_value_of_glued {items : List (Item α)} {values : List α}
    (h : glued items = values.map value) : items = values.map value := by
  induction items generalizing values with
  | nil => exact h
  | cons i items ih =>
    cases hi : i.isUnknown with
    | false =>
      rw [glued_cons, glue_of_not_isUnknown hi] at h
      cases values with
      | nil => cases h
      | cons a values =>
        rw [List.map_cons] at h ⊢
        obtain ⟨hi, h⟩ := List.cons.inj h
        rw [hi, ih h]
    | true =>
      match i, hi with
      | malformed (.unknownTag d b n), _ =>
        obtain ⟨m, rest, hg⟩ := exists_glue_unknownTag d b n (glued items)
        rw [glued_cons, hg] at h
        cases values <;> cases h

end Item

/-! ## Seams -/

/-- The *seams* of a stream as a decoder meets them from the front: those of the chunked frames that
it is at, and, once it has found a result there, the seams of the bytes behind it. -/
inductive Format.Seam {α : Type} (f : Format α) (chunked : UInt8 → Bool) : Bytes → ℕ → Prop
  /-- Between the frames at the front. -/
  | here {tag : UInt8} {bytes : Bytes} {p : ℕ} (hc : chunked tag =
      true) (h : Chunk.Seam tag bytes p) :
    Seam f chunked bytes p
  /-- Behind the first result. -/
  | later {bytes : Bytes} {p : ℕ} (hd : f.decode bytes ≠ .incomplete)
    (h : Seam f chunked (bytes.drop (f.decode bytes).consumed) p) :
    Seam f chunked bytes ((f.decode bytes).consumed + p)

namespace Format

variable {α : Type} {f : Format α} {direction : Direction} {opens chunked : UInt8 → Bool}

/-- There are bytes behind a seam, for a tag has to come next. -/
lemma Seam.lt_length {bytes : Bytes} {p : ℕ} (h : f.Seam chunked bytes p) : p < bytes.length := by
  induction h with
  | here _ h => exact h.lt_length
  | later _ _ ih =>
    rw [List.length_drop] at ih
    omega

/-- There is a full frame in front of a seam. -/
lemma Seam.maxSize_lt {bytes : Bytes} {p : ℕ} (h : f.Seam chunked bytes p) : Chunk.maxSize < p := by
  induction h with
  | here _ h => exact h.maxSize_lt
  | later _ _ ih => exact Nat.lt_of_lt_of_le ih (Nat.le_add_left ..)

/-- A result that leaves bytes stays when more bytes come in.

**Proof sketch.** Behind a byte that opens a frame this is the law of the format, since the result
does not end with the bytes. Bytes of no kind are skipped up to one that opens a frame, and there is
one if the result leaves bytes. -/
lemma Streams.decode_append_of_lt (hf : f.Streams direction opens chunked) {bytes : Bytes}
    (more : Bytes)
    (hd : f.decode bytes ≠ .incomplete) (hlt : (f.decode bytes).consumed < bytes.length) :
    f.decode (bytes ++ more) = f.decode bytes := by
  rcases bytes with _ | ⟨first, rest⟩
  · exact absurd f.decode_nil hd
  · cases ho : opens first with
    | true => exact hf.decode_append ho hd fun he => absurd he (Nat.ne_of_lt hlt)
    | false =>
      have hl : (rest.takeWhile fun b => !opens b).length ≠ rest.length := by
        rw [hf.decode_unknown rest ho] at hlt
        simp only [resync, Decoded.consumed, List.length_cons] at hlt
        omega
      rw [List.cons_append, hf.decode_unknown rest ho, hf.decode_unknown _ ho]
      simp only [resync, List.takeWhile_append, if_neg hl]

/-- The bytes behind the first result, when more bytes come in. -/
lemma Streams.drop_append (hf : f.Streams direction opens chunked) (bytes more : Bytes) :
    (bytes ++ more).drop (f.decode bytes).consumed = bytes.drop (f.decode bytes).consumed ++ more :=
  List.drop_append_of_le_length (hf.consumed_le bytes)

/-- A seam needs 255 bytes in two frames, the length of the first, and more behind it. -/
lemma not_seam_of_length_le {bytes : Bytes} (h : bytes.length ≤ Chunk.maxSize + 1) (p : ℕ) :
    ¬ f.Seam chunked bytes p := by
  intro hs
  have hlt := hs.lt_length
  have hgt := hs.maxSize_lt
  omega

/-- More bytes leave the seams that there are.

**Proof sketch.** Induction on the seam. The results before it leave bytes, so they stay, and the
seam comes behind them in the same place. -/
lemma Seam.append (hf : f.Streams direction opens chunked) {bytes : Bytes} {p : ℕ}
    (h : f.Seam chunked bytes p) (more : Bytes) : f.Seam chunked (bytes ++ more) p := by
  induction h with
  | here hc h => exact .here hc (h.append more)
  | @later bytes p hd h ih =>
    have hlt := h.lt_length
    rw [List.length_drop] at hlt
    have he := hf.decode_append_of_lt more hd (by omega)
    rw [← hf.drop_append, ← he] at ih
    rw [← he] at hd ⊢
    exact .later hd ih

end Format

/-! ## One cut -/

namespace Reader

variable {α : Type} {f : Format α} {direction : Direction} {opens chunked : UInt8 → Bool}

open Item (glue glued)

/-- Bytes that open no frame are reported up to the next one that does. -/
lemma drain_unknown (hf : f.Streams direction opens chunked) {first : UInt8} (rest : Bytes)
    (ho : opens first = false) :
    drain f ⟨first :: rest⟩ =
      (.malformed (.unknownTag direction first (1 + (rest.takeWhile fun b => !opens b).length)) ::
        (drain f ⟨rest.dropWhile fun b => !opens b⟩).1,
          (drain f ⟨rest.dropWhile fun b => !opens b⟩).2) := by
  have hd := hf.decode_unknown rest ho
  have hdrop : (first :: rest).drop (1 + (rest.takeWhile fun b => !opens b).length) =
      rest.dropWhile fun b => !opens b := by
    rw [Nat.add_comm, List.drop_succ_cons]
    conv => lhs; rw [← List.takeWhile_append_dropWhile (p := fun b => !opens b) (l := rest)]
    exact List.drop_left' (by rw [List.takeWhile_append_dropWhile])
  rw [drain_of_item (i := .malformed (.unknownTag direction first _)) (by rw [hd]; rfl), hd]
  simp only [resync, Decoded.consumed, hdrop]

/-- A report of unknown bytes takes in the unknown bytes that come next. -/
lemma glue_drain (hf : f.Streams direction opens chunked) (d : Direction) (b : UInt8) (n : ℕ)
    (bytes : Bytes) :
    glue (.malformed (.unknownTag d b n)) (glued (drain f ⟨bytes⟩).1) =
        glue (.malformed (.unknownTag d b (n + (bytes.takeWhile fun b => !opens b).length)))
          (glued (drain f ⟨bytes.dropWhile fun b => !opens b⟩).1) ∧
      (drain f ⟨bytes⟩).2 = (drain f ⟨bytes.dropWhile fun b => !opens b⟩).2 := by
  rcases bytes with _ | ⟨first, rest⟩
  · exact ⟨rfl, rfl⟩
  · cases ho : opens first with
    | true => simp [ho]
    | false =>
      rw [drain_unknown hf rest ho, Item.glued_cons, Item.glue_glue]
      simp [ho, Nat.add_comm]

/-- **One cut** that is no seam: draining in front of it and again behind it gives what draining
once gives, up to the reports of unknown bytes that it cuts.

**Proof sketch.** Induction along the results in front of the cut. A result that leaves bytes in
front of the cut is the same with the bytes behind it. One that ends at the cut is the same too: a
chunked value because the cut is no seam, the other frames because they are complete. A report of
unknown bytes that ends at the cut takes in those behind it. -/
theorem drain_append (hf : f.Streams direction opens chunked) (bytes more : Bytes)
    (hs : ¬ f.Seam chunked (bytes ++ more) bytes.length) :
    glued (drain f ⟨bytes ++ more⟩).1 =
        glued ((drain f ⟨bytes⟩).1 ++ (((drain f ⟨bytes⟩).2.push more).drain f).1) ∧
      (drain f ⟨bytes ++ more⟩).2 = (((drain f ⟨bytes⟩).2.push more).drain f).2 := by
  induction bytes using f.drain_induction with
  | stop bytes h =>
    rw [drain_of_incomplete h]
    exact ⟨rfl, rfl⟩
  | item bytes i hi ih =>
    have hd := Decoded.ne_incomplete_of_item? hi
    have hle := hf.consumed_le bytes
    -- The rest of the stream is drained alike, if the new bytes do not change the first result.
    have same (he : f.decode (bytes ++ more) = f.decode bytes) :
        glued (drain f ⟨bytes ++ more⟩).1 =
            glued ((drain f ⟨bytes⟩).1 ++ (((drain f ⟨bytes⟩).2.push more).drain f).1) ∧
          (drain f ⟨bytes ++ more⟩).2 = (((drain f ⟨bytes⟩).2.push more).drain f).2 := by
      have ih := ih fun hq => hs ?_
      · rw [drain_of_item hi, drain_of_item (he ▸ hi), he, hf.drop_append]
        simp only [List.cons_append, Item.glued_cons]
        exact ⟨by rw [ih.1], ih.2⟩
      · have hl := Format.Seam.later (he ▸ hd) (by rw [he, hf.drop_append]; exact hq)
        rw [he, List.length_drop, Nat.add_sub_cancel' hle] at hl
        exact hl
    rcases Nat.lt_or_eq_of_le hle with hlt | heq
    · exact same (hf.decode_append_of_lt more hd hlt)
    · rcases bytes with _ | ⟨first, rest⟩
      · exact absurd f.decode_nil hd
      · cases ho : opens first with
        | true => exact same (hf.decode_append ho hd fun _ hc hq => hs (.here hc hq))
        | false =>
          -- All bytes in front of the cut are unknown.
          have hl : (rest.takeWhile fun b => !opens b).length = rest.length := by
            rw [hf.decode_unknown rest ho] at heq
            simp only [resync, Decoded.consumed, List.length_cons] at heq
            omega
          have hdrop : rest.dropWhile (fun b => !opens b) = [] := by
            have hlen := congrArg List.length
              (List.takeWhile_append_dropWhile (p := fun b => !opens b) (l := rest))
            rw [List.length_append] at hlen
            exact List.eq_nil_of_length_eq_zero (by omega)
          have hg := glue_drain hf direction first (1 + rest.length) more
          rw [List.cons_append, drain_unknown hf _ ho, drain_unknown hf _ ho, List.takeWhile_append,
            if_pos hl, List.dropWhile_append, hdrop, hl, List.isEmpty_nil, if_pos rfl,
              List.length_append,
            ← Nat.add_assoc, drain_nil]
          exact ⟨hg.1.symm, hg.2.symm⟩

/-! ## Any chunks -/

/-- **Any chunks** that cut no seam: feeding them gives what draining their stream once gives, up to
the reports of unknown bytes that they cut.

**Proof sketch.** Induction on the chunks, from the back. The chunks before the last one give what
their stream gives, and the cut in front of the last one is a single cut. -/
theorem glued_feed (hf : f.Streams direction opens chunked) (chunks : List Bytes)
    (hs : ∀ p, Cut chunks p → ¬ f.Seam chunked chunks.flatten p) :
    glued (Reader.empty.feed f chunks).1 = glued (drain f ⟨chunks.flatten⟩).1 ∧
      (Reader.empty.feed f chunks).2 = (drain f ⟨chunks.flatten⟩).2 := by
  induction chunks using List.reverseRecOn with
  | nil =>
    rw [List.flatten_nil, drain_nil]
    exact ⟨rfl, rfl⟩
  | append_singleton chunks chunk ih =>
    have hflat : (chunks ++ [chunk]).flatten = chunks.flatten ++ chunk := by simp
    rw [hflat] at hs ⊢
    have ih := ih fun p hp hq => hs p (hp.append [chunk]) (hq.append hf chunk)
    have hcut := drain_append hf chunks.flatten chunk (hs _ ⟨chunks, [chunk], rfl, rfl⟩)
    rw [feed_append_singleton, hcut.1, hcut.2, ← ih.2]
    refine ⟨?_, rfl⟩
    rw [← Item.glued_append, ih.1, Item.glued_append]

/-- Two readings *agree* if they have handed out the same, up to the parts in which unknown bytes
are reported, and the same bytes wait. -/
structure Agree {α : Type} (a b : List (Item α) × Reader) : Prop where
  /-- The values and the errors of single fields are the same, in the same order. -/
  known : a.1.filter (!·.isUnknown) = b.1.filter (!·.isUnknown)
  /-- All items are the same once adjacent reports of unknown bytes are one. -/
  glued : glued a.1 = glued b.1
  /-- The bytes that wait are the same. -/
  reader : a.2 = b.2

/-- Readings agree if their items are the same once they are glued. -/
lemma Agree.of_glued {a b : List (Item α) × Reader} (hg : Item.glued a.1 = Item.glued b.1)
    (hr : a.2 = b.2) : Agree a b where
  known := by rw [← Item.filter_glued, hg, Item.filter_glued]
  glued := hg
  reader := hr

/-- **How a stream is cut makes no difference**, in both directions of the wire: pushing chunks one
at a time and draining after each agrees with pushing their stream whole and draining once, whatever
bytes the stream is made of, if no cut is a seam of the stream.

**Proof sketch.** Both formats are streams, for which `glued_feed` compares the items up to gluing.
Items that are the same once glued agree in values, in errors about fields and in what is skipped.
-/
theorem feed_agree_drain (chunks : List Bytes) :
    ((∀ p, Cut chunks p → ¬ Command.format.Seam Command.chunked chunks.flatten p) →
      Agree (Reader.empty.feed Command.format chunks)
        ((Reader.empty.push chunks.flatten).drain Command.format)) ∧
    ((∀ p, Cut chunks p → ¬ Event.format.Seam Event.chunked chunks.flatten p) →
      Agree (Reader.empty.feed Event.format chunks)
        ((Reader.empty.push chunks.flatten).drain Event.format)) := by
  constructor
  · intro hs
    obtain ⟨hg, hr⟩ := glued_feed Command.streams chunks hs
    exact .of_glued hg hr
  · intro hs
    obtain ⟨hg, hr⟩ := glued_feed Event.streams chunks hs
    exact .of_glued hg hr

/-- Two bytes that open no command, cut apart, and a key whose frame is cut. -/
theorem feed_agree_drain_of_cut_key :
    (∀ p, Cut [[1], [2, 0x69], [0x61, 0x65]] p →
      ¬ Command.format.Seam Command.chunked [1, 2, 0x69, 0x61, 0x65] p) ∧
    (∀ p, Cut [[1], [2, 0x69], [0x61, 0x65]] p →
      ¬ Event.format.Seam Event.chunked [1, 2, 0x69, 0x61, 0x65] p) ∧
    Agree (Reader.empty.feed Command.format [[1], [2, 0x69], [0x61, 0x65]])
      ((Reader.empty.push [1, 2, 0x69, 0x61, 0x65]).drain Command.format) ∧
    Agree (Reader.empty.feed Event.format [[1], [2, 0x69], [0x61, 0x65]])
      ((Reader.empty.push [1, 2, 0x69, 0x61, 0x65]).drain Event.format) := by
  have hc (p : ℕ) : ¬ Command.format.Seam Command.chunked [1, 2, 0x69, 0x61, 0x65] p :=
    Format.not_seam_of_length_le (by decide) p
  have he (p : ℕ) : ¬ Event.format.Seam Event.chunked [1, 2, 0x69, 0x61, 0x65] p :=
    Format.not_seam_of_length_le (by decide) p
  obtain ⟨hcommand, hevent⟩ := feed_agree_drain [[1], [2, 0x69], [0x61, 0x65]]
  exact ⟨fun p _ => hc p, fun p _ => he p, hcommand fun p _ => hc p, hevent fun p _ => he p⟩

end Reader

end DebugWire
