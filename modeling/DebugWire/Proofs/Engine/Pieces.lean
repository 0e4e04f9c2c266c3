import DebugWire.Proofs.Engine.Storage

set_option relaxedAutoImplicit false
set_option autoImplicit false

/-!
# Bytes that are written in pieces

A client cuts bytes for an address into pieces of 255 bytes and sends a command for each. An engine
whose machine is plain stores the pieces one by one: those that end inside of memory are there
afterwards, and each of the others is answered with one message. Nothing else changes.

## Main definitions

* `DebugWire.Store.cut` — bytes for a place, cut into pieces.
* `DebugWire.Store.command`, `DebugWire.Store.frame` — the command that stores a piece, and its
  frame.
* `DebugWire.Store.overlay` — memory with pieces laid over it.

## Main results

* `DebugWire.Script.pokes_eq_map_cut` — the commands for bytes are those of the pieces.
* `DebugWire.Store.encode_commands`, `DebugWire.Store.drain_frames` — the frames of pieces.
* `DebugWire.Engine.after_commands` — an engine behind the commands of pieces.
-/

namespace DebugWire

/-! ## Pieces -/

namespace Store

/-- The command that stores bytes at their place. -/
def command (s : Store) : Command := .setMemory (s.place : Number) s.bytes

/-- The frame of this command: its tag, the place in two bytes, the number of the bytes, and the
bytes. -/
def frame (s : Store) : Bytes :=
  0x6e :: UInt8.ofNat (s.place / 256) :: UInt8.ofNat (s.place % 256) ::
    UInt8.ofNat s.bytes.length :: s.bytes

/-- Bytes for a place, cut into pieces of 255 bytes each; the last one has as many as are left. -/
def cut (place : ℕ) (bytes : Bytes) : List Store :=
  (List.range ((bytes.length + 254) / 255)).map fun k =>
    ⟨place + 255 * k, (bytes.drop (255 * k)).take 255⟩

/-- Memory with bytes laid over it, one after the other. -/
def overlay (memory : Bytes) (ss : List Store) : Bytes :=
  ss.foldl (fun memory s => Machine.overwrite memory s.place s.bytes) memory

/-- Whether bytes end inside of a memory of the given size. -/
def fits (size : ℕ) (s : Store) : Bool := s.place + s.bytes.length ≤ size

variable {place : ℕ} {bytes : Bytes} {s : Store}

/-- No bytes give no piece, wherever they are to be stored. -/
lemma cut_nil (place : ℕ) : cut place [] = [] := rfl

/-- The first piece, and those of the bytes behind it. -/
lemma cut_of_ne_nil (place : ℕ) (h : bytes ≠ []) :
    cut place bytes = ⟨place, bytes.take 255⟩ :: cut (place + 255) (bytes.drop 255) := by
  have hpos := List.length_pos_iff.2 h
  have hcount : (bytes.length + 254) / 255 = ((bytes.drop 255).length + 254) / 255 + 1 := by
    rw [List.length_drop]
    omega
  rw [cut, hcount, List.range_succ_eq_map, List.map_cons, List.map_map, cut]
  refine congrArg (_ :: ·) (List.map_congr_left fun k _ => ?_)
  simp only [Function.comp_apply, Nat.succ_eq_add_one, List.drop_drop, mk.injEq]
  exact ⟨by omega, by rw [show 255 * (k + 1) = 255 + 255 * k by omega]⟩

/-- A piece lies inside of the bytes, and is neither empty nor too long for a frame. -/
lemma bounds_of_mem_cut (h : s ∈ cut place bytes) :
    s.bytes ≠ [] ∧ s.bytes.length ≤ 255 ∧ s.place + s.bytes.length ≤ place + bytes.length := by
  obtain ⟨k, hk, rfl⟩ := List.mem_map.1 h
  have hlt := List.mem_range.1 hk
  have hlength : ((bytes.drop (255 * k)).take 255).length = min 255 (bytes.length - 255 * k) := by
    rw [List.length_take, List.length_drop]
  refine ⟨List.ne_nil_of_length_pos ?_, ?_, ?_⟩ <;> simp only [hlength] <;> omega

/-! ## Frames -/

/-- The frame of a piece is that of its command. -/
lemma encode_command (hplace : s.place ≤ 0xffff) (hlength : s.bytes.length ≤ 255) :
    s.command.encode = .ok s.frame := by
  have hbody :
      s.command.encodeBody = .ok (bytes16 s.place ++ UInt8.ofNat s.bytes.length :: s.bytes) := by
    rw [command, Command.encodeBody, Command.encodeAddress_natCast _ hplace]
    exact if_neg (Nat.not_lt.2 hlength)
  exact congrArg (Except.map _) hbody

/-- **The stream of the commands** of pieces that end below the last address are their frames. -/
theorem encode_commands {ss : List Store} (h : ∀ s ∈ ss, s.command.encode = .ok s.frame) :
    Script.encode (ss.map command) = .ok (ss.map frame).flatten := by
  induction ss with
  | nil => rfl
  | cons s ss ih =>
    obtain ⟨hfirst, hrest⟩ := List.forall_mem_cons.1 h
    rw [List.map_cons, Script.encode, hfirst]
    dsimp only
    rw [ih hrest]
    rfl

/-- **The frames are read** as the commands of the pieces, and no bytes are left. -/
theorem drain_frames {ss : List Store} (h : ∀ s ∈ ss, s.command.encode = .ok s.frame) :
    (Reader.empty.push (ss.map frame).flatten).drain Command.format =
      ((ss.map command).map .value, .empty) := by
  refine Script.drain_encode_of_no_string (encode_commands h) fun c hc => ?_
  obtain ⟨s, -, rfl⟩ := List.mem_map.1 hc
  rfl

end Store

/-- The commands for what is left of bytes are those of the pieces of this.

**Proof sketch.** Induction along the pieces of the bytes. The addresses do not leave the whole
numbers that are exact, so adding to them is adding natural numbers. -/
lemma Script.pokesFrom_eq_map_cut {a offset : ℕ} {bytes : Bytes}
    (h : bytes = [] ∨ a + offset + bytes.length ≤ Number.exactLimit) :
    pokesFrom (a : Number) offset (Chunk.pieces bytes) =
      (Store.cut (a + offset) bytes).map Store.command := by
  induction bytes using Chunk.pieces.induct generalizing offset with
  | case1 bytes hnil =>
    rw [List.isEmpty_iff.1 hnil, pokesFrom_pieces_nil, Store.cut_nil, List.map_nil]
  | case2 bytes hne ih =>
    have hne : bytes ≠ [] := by simpa using hne
    have hfit := h.resolve_left hne
    rw [pokesFrom_pieces _ _ hne, Store.cut_of_ne_nil _ hne, List.map_cons, ih (fits_drop hfit),
      Number.natCast_add_natCast (by omega), ← Nat.add_assoc]
    rfl

/-- **The commands for bytes** are those of the pieces, one by one. -/
theorem Script.pokes_eq_map_cut {a : ℕ} {bytes : Bytes} (h : a + bytes.length ≤ Number.exactLimit) :
    pokes (a : Number) bytes = (Store.cut a bytes).map Store.command :=
  pokesFrom_eq_map_cut (.inr h)

/-! ## Engines -/

namespace Engine

variable {e : Engine} {s : Store}

/-- The message about a piece that does not end inside of memory. -/
def refusal (size : ℕ) (s : Store) : Event :=
  .errorOutput
    (Fault.outOfRange (s.place : Number) (s.bytes.length : Number) (size : Number)).message

/-- A piece that ends inside of memory is stored without a word. -/
lemma handle_command_of_fits (he : e.terminated = false) (hp : e.machine.Plain)
    (hm : e.machine.size ≤ Number.exactLimit) (h : s.fits e.machine.size = true) :
    (e.handle s.command).1 = e.withMemory (Machine.overwrite e.machine.memory s.place s.bytes) ∧
      reply (e, s.command) = [] := by
  refine handle_of_apply_eq_quiet he ?_
  rw [Store.command, apply, hp.writeAt_eq hm (of_decide_eq_true h), took_done_machine]
  rfl

/-- Any other piece is refused as a whole, and the engine stays as it is. -/
lemma handle_command_of_not_fits (he : e.terminated = false) (hp : e.machine.Plain)
    (hs : s.place + s.bytes.length ≤ Number.exactLimit) (h : s.fits e.machine.size = false) :
    (e.handle s.command).1 = e ∧ reply (e, s.command) = [refusal e.machine.size s] := by
  refine handle_of_refuses hp he (.write fun hin => ?_)
  rw [Store.fits, decide_eq_true ((Machine.holds_natCast hs).1 hin)] at h
  cases h

/-- **An engine behind the commands of pieces** has those in its memory that end inside of it. It
has let out one message for each of the others, and nothing else of it has changed.

**Proof sketch.** By induction on the pieces. Each is stored or refused, and the size of memory
stays. -/
theorem after_commands (he : e.terminated = false) (hp : e.machine.Plain)
    (hm : e.machine.size ≤ Number.exactLimit)
    {ss : List Store} (h : ∀ s ∈ ss, s.place + s.bytes.length ≤ Number.exactLimit) :
    e.after (ss.map Store.command) =
        e.withMemory (Store.overlay e.machine.memory (ss.filter (Store.fits e.machine.size))) ∧
      (e.moments (ss.map Store.command)).flatMap reply =
        (ss.filter fun s => !s.fits e.machine.size).map (refusal e.machine.size) := by
  induction ss generalizing e with
  | nil => exact ⟨rfl, rfl⟩
  | cons s ss ih =>
    obtain ⟨hs, hrest⟩ := List.forall_mem_cons.1 h
    rw [List.map_cons, after_cons, moments, List.flatMap_cons]
    cases hfits : s.fits e.machine.size with
    | true =>
      obtain ⟨hengine, hreply⟩ := handle_command_of_fits he hp hm hfits
      have hsize :
          (e.withMemory (Machine.overwrite e.machine.memory s.place s.bytes)).machine.size =
          e.machine.size := Machine.Plain.length_overwrite (of_decide_eq_true hfits)
      have hlimit := le_of_eq_of_le hsize hm
      obtain ⟨hafter, hreplies⟩ :=
        ih (e := e.withMemory (Machine.overwrite e.machine.memory s.place s.bytes)) he hp
          hlimit hrest
      rw [hsize] at hafter hreplies
      rw [hengine, hreply, hafter, hreplies, withMemory_withMemory, List.filter_cons_of_pos hfits,
        List.filter_cons_of_neg (by simp [hfits])]
      exact ⟨rfl, rfl⟩
    | false =>
      obtain ⟨hengine, hreply⟩ := handle_command_of_not_fits he hp hs hfits
      obtain ⟨hafter, hreplies⟩ := ih he hp hm hrest
      rw [hengine, hreply, hafter, hreplies, List.filter_cons_of_neg (by simp [hfits]),
        List.filter_cons_of_pos (by simp [hfits])]
      exact ⟨rfl, rfl⟩

end Engine

end DebugWire
