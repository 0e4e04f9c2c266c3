import DebugWire.Client.Basic
import DebugWire.Proofs.Engine.Pieces
import DebugWire.Proofs.Number.Ordering

set_option relaxedAutoImplicit false
set_option autoImplicit false

/-!
# Bytes that a client writes

A connected client that is to write bytes from an address on either refuses, and then has written
nothing, or it writes one frame for each piece of 255 bytes. The frames are those of the script that
writes the same bytes.

## Main definitions

* `DebugWire.Client.writeAll` — frames that are handed to the sink, one by one.
* `DebugWire.Client.WritesPieces` — a client that writes bytes in pieces.

## Main results

* `DebugWire.Client.sendAll_commands` — the commands of pieces are sent as their frames.
* `DebugWire.Client.exists_writeMemory_of_outside` — bytes that do not lie between the addresses of
  sixteen bits.
* `DebugWire.Client.writes_pieces` — what becomes of any bytes.
-/

namespace DebugWire

/-- A number below zero, be it rounded, is no address. -/
lemma Number.within?_round_of_neg {z : ℤ} (h : z < 0) (limit : ℕ) :
    (round z 0).within? limit = none := by
  cases hw : (round z 0).within? limit with
  | none => rfl
  | some n =>
    have hlt := lt_whole_round (n := -1) (by decide) z
    rw [eq_of_within? hw, lt_whole, decide_eq_decide] at hlt
    omega

namespace Client

variable {c : Client} {a : ℤ} {data : Bytes}

/-- Hands frames to the sink, one by one. -/
def writeAll (c : Client) : List Bytes → Client × List ClientTrace
  | [] => (c, [])
  | frame :: frames =>
    let (c₁, t₁) := c.write frame
    let (c₂, t₂) := c₁.writeAll frames
    (c₂, t₁ ++ t₂)

/-- A write leaves a client connected, because it changes no more than what the sink has taken. -/
lemma isConnected_write (c : Client) (bytes : Bytes) :
    (c.write bytes).1.isConnected = c.isConnected := by
  unfold write
  cases c.link <;> rfl

/-- A sink that is at its start and does not fail takes all frames.

**Proof sketch.** A write on such a sink is taken and leaves the sink as it is; so by induction are
all frames. -/
lemma writeAll_of_fresh {link : Link} (hl : c.link = some link) (hs : link.sink = .fresh none)
    (frames : List Bytes) :
    c.writeAll frames = (c, frames.map .sent) := by
  have hwrite (bytes : Bytes) : c.write bytes = (c, [.sent bytes]) := by
    obtain ⟨listeners, isOpen, sink⟩ := link
    obtain ⟨timeout, reader, link, former, isBound, isClosed, waits, now⟩ := c
    obtain rfl : sink = .fresh none := hs
    obtain rfl : link = some ⟨listeners, isOpen, .fresh none⟩ := hl
    rfl
  induction frames with
  | nil => rfl
  | cons frame frames ih =>
    rw [writeAll, hwrite]
    dsimp only
    rw [ih]
    rfl

/-- **The commands of pieces** are sent as their frames.

**Proof sketch.** Induction on the pieces. The client stays connected behind the frame of the first,
so the others are sent as well. -/
theorem sendAll_commands (hc : c.isConnected = true) {ss : List Store}
    (h : ∀ s ∈ ss, s.command.encode = .ok s.frame) :
    c.sendAll (ss.map Store.command) =
      ⟨(c.writeAll (ss.map Store.frame)).1, (c.writeAll (ss.map Store.frame)).2, .ok ()⟩ := by
  induction ss generalizing c with
  | nil => rfl
  | cons s ss ih =>
    obtain ⟨hfirst, hrest⟩ := List.forall_mem_cons.1 h
    have hsend : c.send s.command = ⟨(c.write s.frame).1, (c.write s.frame).2, .ok ()⟩ := by
      rw [send, if_pos hc, hfirst]
    rw [List.map_cons, sendAll, hsend]
    dsimp only
    rw [ih ((isConnected_write c s.frame).trans hc) hrest]
    rfl

/-- Bytes end behind the last address exactly if their number and the address say so, whatever is
rounded. -/
lemma lt_add_length (a : ℤ) (data : Bytes) :
    Number.lt ((0x10000 : ℕ) : Number) (.whole a + (data.length : Number)) =
      decide (0x10000 < a + (data.length : ℤ)) := by
  rw [Number.whole_add_eq_round]
  exact Number.lt_whole_round (by decide) _

/-- **Bytes that do not lie** between the addresses of sixteen bits are refused, and then nothing is
written.

**Proof sketch.** If the bytes end above the last address, the check of the end refuses them.
Otherwise there are some and they begin below zero, so the first command has no encoding, and it is
refused before anything is written. -/
theorem exists_writeMemory_of_outside (hc : c.isConnected = true)
    (h : 0x10000 < a + (data.length : ℤ) ∨ data ≠ [] ∧ a < 0) :
    ∃ f, c.writeMemory (.whole a) data = ⟨c, [], .error f⟩ := by
  rw [writeMemory, lt_add_length]
  by_cases hlong : 0x10000 < a + (data.length : ℤ)
  · rw [if_pos (decide_eq_true hlong)]
    exact ⟨_, rfl⟩
  · obtain ⟨hne, hneg⟩ := h.resolve_left hlong
    have haddress : (Number.whole a + ((0 : ℕ) : Number)).within? 0xffff = none := by
      rw [Number.whole_add_eq_round]
      exact Number.within?_round_of_neg (by omega) _
    -- The first of the commands fails for its address, before anything is written.
    have hfail :
        ∃ f, (Command.setMemory (.whole a + ((0 : ℕ) : Number)) (data.take Chunk.maxSize)).encode =
        .error f := by
      rw [Command.encode, Command.encodeBody, Command.encodeAddress, haddress]
      · exact ⟨_, rfl⟩
      · intro text htext
        cases htext
    obtain ⟨f, hf⟩ := hfail
    refine ⟨f, ?_⟩
    rw [if_neg (by rw [decide_eq_true_eq]; exact hlong), Script.pokes,
      Script.pokesFrom_pieces _ _ hne, sendAll, send, if_pos hc, hf]

/-- A client *writes* bytes for an address *in pieces*. -/
structure WritesPieces (c : Client) (a : ℤ) (data : Bytes) (pieces : List Store) : Prop where
  /-- There is one piece for each 255 bytes, and one for what is left. -/
  length : pieces.length = (data.length + 254) / 255
  /-- The client hands the frames of the pieces to its sink, and does nothing else. -/
  writeMemory : c.writeMemory (.whole a) data =
    ⟨(c.writeAll (pieces.map Store.frame)).1, (c.writeAll (pieces.map Store.frame)).2, .ok ()⟩
  /-- A sink that takes bytes has then been sent the frames, and the client is as it was. -/
  sent : ∀ link, c.link = some link → link.sink = .fresh none →
    c.writeAll (pieces.map Store.frame) = (c, (pieces.map Store.frame).map .sent)
  /-- The frames are the stream of the script that writes the same bytes. -/
  encode : Script.encode (Script.poke [] (.whole a) data) = .ok (pieces.map Store.frame).flatten
  /-- They are read as the commands that store the pieces. -/
  drain : (Reader.empty.push (pieces.map Store.frame).flatten).drain Command.format =
    ((pieces.map Store.command).map .value, .empty)
  /-- An engine on a plain machine that is given these commands, and has not come to its end, lays
  those pieces over its memory that end inside of it. It lets out one message for each of the
  others, and nothing else of it changes. -/
  after : ∀ e : Engine, e.machine.Plain → e.machine.size ≤ Number.exactLimit →
  e.terminated = false →
    e.after (pieces.map Store.command) =
        e.withMemory (Store.overlay e.machine.memory (pieces.filter (Store.fits e.machine.size))) ∧
      Emission.events (e.run ((pieces.map Store.command).map .command)).2 =
        (pieces.filter fun s => !s.fits e.machine.size).map (Engine.refusal e.machine.size)

/-- **Bytes are written in pieces**, or not at all. A connected client refuses bytes for a whole
number as address exactly if they would end behind the last address, or if there are any and the
address is negative. Then it has written nothing. Otherwise it writes the frames of their pieces.

**Proof sketch.** Between the addresses of sixteen bits no sum is rounded, so the commands that the
bytes are cut into are those of the pieces, and all of them have frames. -/
theorem writes_pieces (hc : c.isConnected = true) (a : ℤ) (data : Bytes) :
    (0x10000 < a + (data.length : ℤ) ∨ data ≠ [] ∧ a < 0 →
      ∃ f, c.writeMemory (.whole a) data = ⟨c, [], .error f⟩) ∧
    (¬ (0x10000 < a + (data.length : ℤ) ∨ data ≠ [] ∧ a < 0) →
      c.WritesPieces a data (Store.cut a.toNat data)) := by
  refine ⟨exists_writeMemory_of_outside hc, fun h => ?_⟩
  rw [not_or, not_and, Int.not_lt, Int.not_lt] at h
  obtain ⟨hfit, hpos⟩ := h
  -- Without any bytes there are no commands, whatever the address.
  have hpokes : Script.pokes (.whole a) data = (Store.cut a.toNat data).map Store.command := by
    by_cases hne : data = []
    · rw [hne, Script.pokes, Script.pokesFrom_pieces_nil, Store.cut_nil, List.map_nil]
    · obtain ⟨n, rfl⟩ := Int.eq_ofNat_of_zero_le (hpos hne)
      exact Script.pokes_eq_map_cut (by simp only [Number.exactLimit]; omega)
  have hbounds : ∀ s ∈ Store.cut a.toNat data, s.place < 0x10000 ∧ s.bytes.length ≤ 255 := by
    intro s hs
    obtain ⟨hne, hlength, hend⟩ := Store.bounds_of_mem_cut hs
    have hsome := List.length_pos_iff.2 hne
    have hdata : data ≠ [] := by
      rintro rfl
      cases hs
    have := hpos hdata
    exact ⟨by omega, hlength⟩
  have hencode : ∀ s ∈ Store.cut a.toNat data, s.command.encode = .ok s.frame := fun s hs =>
    Store.encode_command (Nat.le_of_lt_succ (hbounds s hs).1) (hbounds s hs).2
  refine {
    length := by rw [Store.cut, List.length_map, List.length_range]
    writeMemory := ?_
    sent := fun link hl hs => writeAll_of_fresh hl hs _
    encode := ?_
    drain := Store.drain_frames hencode
    after := fun e hp hm he => ?_ }
  · rw [writeMemory, lt_add_length, if_neg (by rw [decide_eq_true_eq]; omega), hpokes,
      sendAll_commands hc hencode]
  · rw [Script.poke, List.nil_append, hpokes]
    exact Store.encode_commands hencode
  · rw [Engine.events_run_commands]
    refine Engine.after_commands he hp hm fun s hs => ?_
    have := hbounds s hs
    simp only [Number.exactLimit]
    omega

/-- Three hundred bytes are written for the address 250, to a session of which memory ends behind
the first piece and inside of the second. For the address -1 they are refused. -/
theorem writes_pieces_of_three_hundred :
    ∃ (c : Client) (e : Engine) (first second : Store),
      c = (unbound none).bind (.fresh none) ∧ e = Engine.start (.initial [] 520 {}) false ∧
      first = ⟨250, List.replicate 255 7⟩ ∧ second = ⟨505, List.replicate 45 7⟩ ∧
      (∃ f, c.writeMemory (.whole (-1)) (List.replicate 300 7) = ⟨c, [], .error f⟩) ∧
      c.writeMemory (.whole 250) (List.replicate 300 7) =
        ⟨c, [.sent first.frame, .sent second.frame], .ok ()⟩ ∧
      e.after [first.command, second.command] =
        e.withMemory (Machine.overwrite (List.replicate 520 0) 250 (List.replicate 255 7)) ∧
      Emission.events (e.run [.command first.command, .command second.command]).2 =
        [Engine.refusal 520 second] := by
  have hc : ((unbound none).bind (.fresh none)).isConnected = true := rfl
  have hne (n : ℕ) : List.replicate (n + 1) (7 : UInt8) ≠ [] := List.cons_ne_nil _ _
  have hcut : Store.cut 250 (List.replicate 300 7) =
      [⟨250, List.replicate 255 7⟩, ⟨505, List.replicate 45 7⟩] := by
    rw [Store.cut_of_ne_nil _ (hne 299), List.take_replicate, List.drop_replicate,
      Store.cut_of_ne_nil _ (hne 44), List.take_replicate, List.drop_replicate]
    rfl
  have hrefused := (writes_pieces hc (-1) (List.replicate 300 7)).1 (.inr ⟨hne 299, by decide⟩)
  have hinside : ¬ (0x10000 < 250 + ((List.replicate 300 (7 : UInt8)).length : ℤ) ∨
      List.replicate 300 (7 : UInt8) ≠ [] ∧ (250 : ℤ) < 0) := by
    rw [List.length_replicate]
    omega
  have h := (writes_pieces hc 250 (List.replicate 300 7)).2 hinside
  rw [show (250 : ℤ).toNat = 250 from rfl, hcut] at h
  have hsize : (Engine.start (.initial [] 520 {}) false).machine.size = 520 := List.length_replicate
  have hlimit : (Engine.start (.initial [] 520 {}) false).machine.size ≤ Number.exactLimit := by
    rw [hsize]
    decide
  obtain ⟨hafter, hevents⟩ := h.after (Engine.start (.initial [] 520 {}) false) rfl hlimit rfl
  have hfirst : Store.fits 520 ⟨250, List.replicate 255 7⟩ = true := by
    rw [Store.fits, List.length_replicate]
    rfl
  have hsecond : Store.fits 520 ⟨505, List.replicate 45 7⟩ = false := by
    rw [Store.fits, List.length_replicate]
    rfl
  rw [hsize] at hafter hevents
  refine ⟨_, _, _, _, rfl, rfl, rfl, rfl, hrefused, ?_, ?_, ?_⟩
  · rw [h.writeMemory, h.sent _ rfl rfl]
    rfl
  · rw [List.filter_cons_of_pos hfirst,
      List.filter_cons_of_neg (by rw [hsecond]; exact Bool.false_ne_true)] at hafter
    simp only [List.filter_nil, Store.overlay, List.foldl_cons, List.foldl_nil] at hafter
    exact hafter
  · rw [List.filter_cons_of_neg (by rw [hfirst]; exact Bool.false_ne_true),
      List.filter_cons_of_pos (by rw [hsecond]; rfl)] at hevents
    simp only [List.map_cons, List.map_nil, List.filter_nil] at hevents
    exact hevents

end Client

end DebugWire
