import DebugWire.Proofs.Session.Refinement
import DebugWire.Proofs.Wire.Tiling

set_option relaxedAutoImplicit false
set_option autoImplicit false

/-!
# Draining comes to rest

Whatever bytes a reader holds, each result of its decoder but the wait for more takes some of them
and no others. So draining comes to rest, and so does the loop of a session, which takes up one item
in a round. Nothing is lost on the way: the items stand for pieces of the stream that lie side by
side, and what stays is the beginning of a frame.

## Main definitions

* `DebugWire.Session.Rounds` — a session comes to rest in a number of rounds.

## Main results

* `DebugWire.Session.rounds_pump` — a session comes to rest.
* `DebugWire.drain_tiled` — no byte is lost and none is made up.
-/

namespace DebugWire

/-! ## Rounds of a session -/

namespace Session

/-- A session comes to *rest* in a number of rounds. In each one it takes up the next item of its
reader, and it goes on until it has ended or there is no item. -/
inductive Rounds : ℕ → Session → Session → Prop
  /-- There is nothing to take up, or the session has ended. -/
  | rest {s : Session} (h : s.outcome ≠ none ∨ s.reader.next? Command.format = none) : Rounds 0 s s
  /-- One item is taken up. -/
  | round {n : ℕ} {s last : Session} {item : Item Command} {reader : Reader} (ho : s.outcome = none)
    (hn : s.reader.next? Command.format = some (item, reader))
    (h : Rounds n (takeItem { s with reader := reader } item).1 last) : Rounds (n + 1) s last

/-- **A session comes to rest** in at most as many rounds as there are bytes in its reader.

**Proof sketch.** Induction on the items. Each one takes bytes out of the reader, and taking it up
puts none back. -/
theorem rounds_pump (s : Session) : ∃ n ≤ s.reader.size, Rounds n s s.pump.1 := by
  induction s using Session.pump.induct with
  | case1 s hover =>
    have ho : s.outcome ≠ none := Option.isSome_iff_ne_none.1 hover
    rw [pump_of_outcome ho]
    exact ⟨0, Nat.zero_le _, .rest (.inl ho)⟩
  | case2 s _ hnext =>
    rw [pump_of_next?_eq_none hnext]
    exact ⟨0, Nat.zero_le _, .rest (.inr hnext)⟩
  | case3 s hrunning item reader hnext _ ih =>
    have ho : s.outcome = none := Option.not_isSome_iff_eq_none.1 hrunning
    obtain ⟨n, hn, hrounds⟩ := ih
    have hlt : reader.size < s.reader.size := Reader.size_lt_of_next? hnext
    have hle := size_takeItem_le { s with reader := reader } item
    rw [pump_of_next?_eq_some ho hnext]
    exact ⟨n + 1, Nat.lt_of_le_of_lt (hn.trans hle) hlt, .round ho hnext hrounds⟩

end Session

/-! ## Both directions -/

/-- **Draining loses nothing and makes nothing up**, in both directions of the wire and for all
bytes.
* Each result but the wait for more takes at least one byte and at most all of them.
* The items that a reader hands out tile its bytes, up to the beginning of a frame that is left
  over.
* So a session comes to rest, in at most one round for each byte.

**Proof sketch.** Both decoders go through a stream piece by piece (`piecewise`), from which the
tiles and the bound on what is taken follow. The rounds of a session are the recursion of `pump`,
each of which takes a byte. -/
theorem drain_tiled :
    (∀ bytes : Bytes,
      (Command.decode bytes = .incomplete ∨
        1 ≤ (Command.decode bytes).consumed ∧ (Command.decode bytes).consumed ≤ bytes.length) ∧
      ∃ pieces left,
        Command.format.Tiled .command Command.opens (fun c => c.tag.byte) bytes pieces left) ∧
    (∀ bytes : Bytes,
      (Event.decode bytes = .incomplete ∨
        1 ≤ (Event.decode bytes).consumed ∧ (Event.decode bytes).consumed ≤ bytes.length) ∧
      ∃ pieces left,
        Event.format.Tiled .event Event.opens (fun e => e.tag.byte) bytes pieces left) ∧
    ∀ s : Session, ∃ n ≤ s.reader.size, Session.Rounds n s s.pump.1 := by
  refine ⟨fun bytes => ⟨?_, Command.piecewise.tiled bytes⟩,
    fun bytes => ⟨?_, Event.piecewise.tiled bytes⟩, Session.rounds_pump⟩
  · exact (Command.decode_consumed bytes).imp_right fun h =>
      ⟨h, Command.piecewise.consumed_le bytes⟩
  · exact (Event.decode_consumed bytes).imp_right fun h => ⟨h, Event.piecewise.consumed_le bytes⟩

end DebugWire
