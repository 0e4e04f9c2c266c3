import DebugWire.Proofs.Number.Counting
import DebugWire.Proofs.Wire.CommandStream

set_option relaxedAutoImplicit false
set_option autoImplicit false

/-!
# Scripts that are put together

What the calls add to a script: as many steps as a count says, and commands that write bytes, one
piece behind the other. The stream of a script without strings gives the script back.

## Main definitions

* `DebugWire.Script.Writes` — commands that write bytes piece by piece.

## Main results

* `DebugWire.Script.rounds?_eq_some_iff` — how often a loop up to a bound is run.
* `DebugWire.Script.writes_pokes` — the commands for bytes that are written.
* `DebugWire.Script.drain_encode_of_no_string` — all that the stream of a script without strings
  gives.
-/

namespace DebugWire

namespace Script

/-! ## Steps -/

/-- **A loop up to a bound** comes to an end if the bound is not above the limit of exact counting,
and then it is run once for each natural number below the bound.

**Proof sketch.** The least natural number that is not below the bound has just the natural numbers
below it that are below the bound. No other number has them. -/
theorem rounds?_eq_some_iff {bound : Number} {n : ℕ} :
    rounds? bound = some n ↔
      Number.lt Number.exactLimit bound = false ∧ ∀ k : ℕ, k < n ↔
      Number.lt (k : Number) bound = true := by
  have hunique {m : ℕ} (hm : ∀ k : ℕ, k < m ↔ Number.lt (k : Number) bound = true) :
      m = n ↔ ∀ k : ℕ, k < n ↔ Number.lt (k : Number) bound = true := by
    refine ⟨fun h => h ▸ hm, fun hn => le_antisymm ?_ ?_⟩
    · exact Nat.le_of_not_lt fun h => lt_irrefl n ((hn n).2 ((hm n).1 h))
    · exact Nat.le_of_not_lt fun h => lt_irrefl m ((hm m).2 ((hn m).1 h))
  have hnone : bound = .infinite true ∨ bound = .nan → ∀ k : ℕ, k < 0 ↔
      Number.lt (k : Number) bound = true := by
    rintro (rfl | rfl) k <;> exact iff_of_false (Nat.not_lt_zero k) Bool.false_ne_true
  unfold rounds?
  cases h : Number.lt Number.exactLimit bound with
  | true => exact iff_of_false nofun fun hn => Bool.false_ne_true hn.1.symm
  | false =>
    rw [if_neg Bool.false_ne_true, and_iff_right rfl]
    cases bound with
    | whole z =>
      refine Option.some_inj.trans (hunique (m := z.toNat) fun k => ?_)
      rw [Number.lt_whole, decide_eq_true_iff]
      omega
    | fraction m s odd =>
      refine Option.some_inj.trans (hunique (m := (m.fdiv (Number.twoPow (s + 1)) + 1).toNat)
        fun k => ?_)
      rw [Number.natCast_lt_fraction, decide_eq_true_iff]
      omega
    | infinite negative =>
      cases negative with
      | true => exact Option.some_inj.trans (hunique (hnone (.inl rfl)))
      | false => cases h
    | nan => exact Option.some_inj.trans (hunique (hnone (.inr rfl)))

-- The counter of a loop stays at the limit for ever.
example : (Number.exactLimit : Number) + 1 = Number.exactLimit := by decide +kernel

/-! ## Pieces -/

/-- Commands *write* bytes from an address on: each one writes the next piece, which has at least
one byte and fits a frame, at the place where the piece before it ends. -/
inductive Writes : ℕ → Bytes → Script → Prop
  | done (a : ℕ) : Writes a [] []
  | piece {a : ℕ} {piece rest : Bytes} {cs : Script} : piece ≠ [] → piece.length ≤ Chunk.maxSize →
    Writes (a + piece.length) rest cs →
    Writes a (piece ++ rest) (.setMemory (a : Number) piece :: cs)

variable {a offset : ℕ} {bytes : Bytes}

/-- No string is among commands that write bytes, so no payload can run into them. -/
lemma Writes.payload?_eq_none {cs : Script} (h : Writes a bytes cs) :
    ∀ c ∈ cs, c.payload? = none := by
  induction h with
  | done => exact fun _ hc => absurd hc List.not_mem_nil
  | piece _ _ _ ih => exact List.forall_mem_cons.2 ⟨rfl, ih⟩

/-- The first of the commands that write bytes, and the others. -/
lemma pokesFrom_pieces (address : Number) (offset : ℕ) (h : bytes ≠ []) :
    pokesFrom address offset (Chunk.pieces bytes) =
      .setMemory (address + (offset : Number)) (bytes.take Chunk.maxSize) ::
        pokesFrom address (offset + Chunk.maxSize) (Chunk.pieces (bytes.drop Chunk.maxSize)) := by
  rw [Chunk.pieces, if_neg (by simpa using h), pokesFrom]

/-- No bytes are written by no commands, whatever address they are for. -/
lemma pokesFrom_pieces_nil (address : Number) (offset : ℕ) :
    pokesFrom address offset (Chunk.pieces []) = [] := by
  have hnone : Chunk.pieces [] = [] := by
    rw [Chunk.pieces]
    rfl
  rw [hnone, pokesFrom]

/-- Commands that write bytes are carried as they are. -/
lemma map_carried_pokesFrom (address : Number) (offset : ℕ) (pieces : List Bytes) :
    (pokesFrom address offset pieces).map Command.carried = pokesFrom address offset pieces := by
  induction pieces generalizing offset with
  | nil => rfl
  | cons piece pieces ih =>
    rw [pokesFrom, List.map_cons, ih]
    rfl

/-- The commands for what is left of bytes write this. An address that a frame has leaves room for
the next one, so that the sum of both is exact.

**Proof sketch.** Induction on the pieces. The first command can be written, so its address has
sixteen bits, and with the length of a piece the next address is still exact. A piece with less than
255 bytes is the last one. -/
lemma writes_pokesFrom (hc : ∀ c ∈ pokesFrom (a : Number) offset (Chunk.pieces bytes), c.Encodes)
    (ha : a + offset ≤ 0xffff + Chunk.maxSize) :
    Writes (a + offset) bytes (pokesFrom (a : Number) offset (Chunk.pieces bytes)) := by
  induction bytes using Chunk.pieces.induct generalizing offset with
  | case1 bytes hnil =>
    rw [List.isEmpty_iff.1 hnil, pokesFrom_pieces_nil]
    exact .done _
  | case2 bytes hne ih =>
    have hne : bytes ≠ [] := by simpa using hne
    have hsum : (a : Number) + (offset : Number) = ((a + offset : ℕ) : Number) :=
      Number.natCast_add_natCast (by simp only [Number.exactLimit, Chunk.maxSize] at ha ⊢; omega)
    rw [pokesFrom_pieces _ _ hne, hsum] at hc ⊢
    obtain ⟨hfirst, hrest⟩ := List.forall_mem_cons.1 hc
    obtain ⟨n, hn, heq, -⟩ := Command.exists_natCast_of_setMemory hfirst
    have hsame : ((a + offset : ℕ) : ℤ) = n := Number.whole.inj heq
    have hwrites := ih hrest (by omega)
    have hfit := List.length_take_le Chunk.maxSize bytes
    have htake : bytes.take Chunk.maxSize ≠ [] := by
      simpa [List.take_eq_nil_iff, Chunk.maxSize] using hne
    have hpiece : Writes (a + offset + (bytes.take Chunk.maxSize).length) (bytes.drop Chunk.maxSize)
        (pokesFrom (a : Number) (offset + Chunk.maxSize)
          (Chunk.pieces (bytes.drop Chunk.maxSize))) := by
      by_cases hlen : bytes.length ≤ Chunk.maxSize
      · rw [List.drop_eq_nil_of_le hlen, pokesFrom_pieces_nil]
        exact .done _
      · rwa [List.length_take, Nat.min_eq_left (by omega), Nat.add_assoc]
    have hall := Writes.piece htake hfit hpiece
    rwa [List.take_append_drop] at hall

/-- **The commands for bytes** write these, piece by piece, if all of them can be written. -/
theorem writes_pokes (ha : a ≤ 0xffff) (hc : ∀ c ∈ pokes (a : Number) bytes, c.Encodes) :
    Writes a bytes (pokes (a : Number) bytes) :=
  writes_pokesFrom hc (Nat.le_add_right_of_le ha)

/-! ## Streams -/

/-- All commands of a script that has a stream can be written. -/
lemma encodes_of_encode {s : Script} {stream : Bytes} (h : s.encode = .ok stream) :
    ∀ c ∈ s, c.Encodes := by
  induction s generalizing stream with
  | nil => exact fun _ hc => absurd hc List.not_mem_nil
  | cons c s ih =>
    rw [encode_eq_encodeAll, Command.codec.encodeAll_cons_eq_ok] at h
    obtain ⟨bytes, rest, hb, hr, -⟩ := h
    exact List.forall_mem_cons.2 ⟨⟨bytes, hb⟩, ih ((encode_eq_encodeAll s).trans hr)⟩

/-- The stream of commands is not empty, as each begins with its kind. -/
lemma ne_nil_of_encode {s : Script} {stream : Bytes} (h : s.encode = .ok stream) (hs : s ≠ []) :
    stream ≠ [] := by
  rintro rfl
  rw [encode_eq_encodeAll] at h
  have hhead := Command.codec.head?_encodeAll_append h
  cases s with
  | nil => exact hs rfl
  | cons => cases hhead

/-- **The stream of a script without strings** gives the script back, command for command, and no
bytes are left.

**Proof sketch.** Commands without a payload do not run into each other, so nothing is merged, and
frames carry them as they are. -/
theorem drain_encode_of_no_string {s : Script} {stream : Bytes} (h : s.encode = .ok stream)
    (hs : ∀ c ∈ s, c.payload? = none) :
    (Reader.empty.push stream).drain Command.format = (s.map .value, Reader.empty) := by
  have hchain : s.IsChain fun c d => Command.codec.runsInto c d = false := by
    refine List.Pairwise.isChain (List.pairwise_of_forall_mem_list fun c hc d _ => ?_)
    refine Bool.eq_false_iff.2 fun hrun => ?_
    have hsome := Command.codec.isSome_of_endsFull (Command.codec.runsInto_iff.1 hrun).2
    rw [show Command.codec.payload? c = none from hs c hc] at hsome
    cases hsome
  rw [encode_eq_encodeAll] at h
  have hcarried : s.map Command.codec.carried = s := by
    rw [Command.codec_carried]
    exact (List.map_congr_left fun c hc => Command.carried_of_payload?_eq_none (hs c hc)).trans
      s.map_id
  have hdrain := Command.codec.drain_encodeAll h
  rwa [Command.codec.merged_of_isChain hchain, hcarried] at hdrain

end Script

end DebugWire
