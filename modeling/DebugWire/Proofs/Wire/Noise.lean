import DebugWire.Proofs.Wire.CommandStream
import DebugWire.Proofs.Wire.Extension

set_option relaxedAutoImplicit false
set_option autoImplicit false

/-!
# Noise between commands

Bytes that open no command may stand in front of the frames of commands, between them and behind
them. Each *run* of such bytes is reported once, with its first byte and its length, and reading
goes on with the next frame, whatever that is. The commands come back as they do without the noise,
each as its frames carry it.

## Main definitions

* `DebugWire.Item.isValue` — an item is a value.
* `DebugWire.Script.Littered` — the pieces of a stream of commands and noise, each with the item
  that it gives.

## Main results

* `DebugWire.Script.Littered.next?_append` — one piece of a stream.
* `DebugWire.Script.Littered.drain_eq` — all that a stream gives.
-/

namespace DebugWire

/-- Whether an item is a value. -/
def Item.isValue {α : Type} : Item α → Bool
  | value _ => true
  | malformed _ => false

namespace Script

/-! ## Streams with noise -/

/-- A script *littered* with noise: the pieces of its stream in order, each with the item that
should come of it. A piece is the frames of a command, or a run of bytes that open none; no run
stands right behind another. -/
inductive Littered : Script → List (Item Command × Bytes) → Prop
  /-- A stream without pieces. -/
  | nil : Littered [] []
  /-- A command gives what its frames carry. -/
  | command {c : Command} {frames : Bytes} {cs : Script} {pieces : List (Item Command × Bytes)}
    (he : c.encode = .ok frames) (h : Littered cs pieces) :
    Littered (c :: cs) ((.value c.carried, frames) :: pieces)
  /-- A run of noise gives one error, with its first byte and its length. -/
  | noise (first : UInt8) (rest : Bytes) {cs : Script} {pieces : List (Item Command × Bytes)}
    (hb : ∀ b ∈ first :: rest, Command.opens b = false) (hn : ∀ piece ∈ pieces.head?,
      piece.1.isValue = true)
    (h : Littered cs pieces) :
    Littered cs ((.malformed (.unknownTag .command first (first :: rest).length),
      first :: rest) :: pieces)

variable {cs : Script} {c : Command} {piece : Item Command × Bytes}
  {pieces before after : List (Item Command × Bytes)}

/-- The first byte of a command opens one, so noise never begins with it. -/
lemma opens_byte (c : Command) : Command.opens c.tag.byte = true := by
  rw [Command.opens, CommandTag.ofByte?_byte]
  rfl

namespace Littered

/-- Without the noise, the stream is that of the script. -/
lemma encode_eq (h : Littered cs pieces) :
    cs.encode = .ok ((pieces.filter fun piece => piece.1.isValue).flatMap Prod.snd) := by
  induction h with
  | nil => rfl
  | command he _ ih =>
    rw [List.filter_cons_of_pos rfl, List.flatMap_cons, Script.encode, he, ih]
    rfl
  | noise _ _ _ _ _ ih => rw [List.filter_cons_of_neg Bool.false_ne_true, ih]

/-- Without the noise, the pieces are those of the script. -/
lemma filter_pieces (h : Littered cs pieces) :
    Littered cs (pieces.filter fun piece => piece.1.isValue) := by
  induction h with
  | nil => exact .nil
  | command he _ ih => exact .command he ih
  | noise _ _ _ _ _ ih => exact ih

/-- Without the errors, the items are the commands of the script, as their frames carry them. -/
lemma filter_isValue (h : Littered cs pieces) :
    (pieces.map Prod.fst).filter Item.isValue = (cs.map Command.carried).map .value := by
  induction h with
  | nil => rfl
  | command _ _ ih =>
    rw [List.map_cons, List.filter_cons_of_pos rfl, ih, List.map_cons, List.map_cons]
  | noise _ _ _ _ _ ih => rw [List.map_cons, List.filter_cons_of_neg Bool.false_ne_true, ih]

/-- The last pieces of a littered script are those of a script that is littered. -/
lemma of_append (h : Littered cs (before ++ after)) :
    ∃ ds es, cs = ds ++ es ∧ Littered es after := by
  induction before generalizing cs with
  | nil => exact ⟨[], cs, rfl, h⟩
  | cons piece before ih =>
    cases h with
    | @command c _ _ _ _ h =>
      obtain ⟨ds, es, rfl, hes⟩ := ih h
      exact ⟨c :: ds, es, rfl, hes⟩
    | noise _ _ _ _ h => exact ih h

/-! ## One piece -/

/-- A command does not go on in what stands behind it, be that noise or the next command.

**Proof sketch.** Behind the command there is nothing, noise, or another command. Noise does not
begin with a byte that opens a frame, and the chain says that the command does not run into the next
one. -/
lemma stops (h : Littered cs pieces)
    (hc : (c :: cs).IsChain fun c d => Command.runsInto c d = false) :
    Command.codec.Stops [c] (pieces.flatMap Prod.snd) := by
  intro a ha hfull hhead
  obtain rfl : c = a := Option.some.inj ha
  cases h with
  | nil => cases hhead
  | @command d frames _ _ he _ =>
    rw [List.flatMap_cons, List.head?_append, Command.codec.head?_encode he] at hhead
    have hruns : Command.codec.runsInto c d = true :=
      Command.codec.runsInto_iff.2 ⟨(Option.some.inj hhead).symm, hfull⟩
    rw [Command.codec_runsInto, (List.isChain_cons_cons.1 hc).1] at hruns
    cases hruns
  | noise first rest hb _ _ =>
    obtain rfl : first = c.tag.byte := Option.some.inj hhead
    exact absurd (opens_byte c) (by rw [hb _ List.mem_cons_self]; exact nofun)

/-- Behind a run of noise, a command opens or the stream ends.

**Proof sketch.** If a command comes next then its first byte opens one. Another run of noise does
not come next, by what is supposed. -/
lemma takeWhile_eq_nil (h : Littered cs pieces)
    (hn : ∀ piece ∈ pieces.head?, piece.1.isValue = true) :
    ((pieces.flatMap Prod.snd).takeWhile fun b => !Command.opens b) = [] := by
  cases h with
  | nil => rfl
  | @command c frames _ _ he _ =>
    obtain ⟨more, rfl⟩ := List.head?_eq_some_iff.1 (Command.codec.head?_encode he)
    have hopens : Command.opens (Command.codec.byte c) = true := opens_byte c
    rw [List.flatMap_cons, List.cons_append,
      List.takeWhile_cons_of_neg (by rw [hopens]; exact nofun)]
  | noise _ _ _ _ _ =>
    have hfirst := hn _ rfl
    cases hfirst

/-- **One piece** in front of others gives its item, and takes its bytes and no others.

**Proof sketch.** A command is decoded from its frames, which go on in nothing behind them. Noise is
skipped up to the next byte that opens a frame, with which the piece behind it begins. -/
lemma decode_cons (h : Littered cs (piece :: pieces))
    (hc : cs.IsChain fun c d => Command.runsInto c d = false) :
    (Command.format.decode (piece.2 ++ pieces.flatMap Prod.snd)).item? = some piece.1 ∧
      (Command.format.decode (piece.2 ++ pieces.flatMap Prod.snd)).consumed = piece.2.length := by
  cases h with
  | @command c frames _ _ he h =>
    rw [Command.codec.decode_encode_append he (h.stops hc), Command.codec_carried]
    exact ⟨rfl, rfl⟩
  | noise first rest hb hn h =>
    have hskipped : ∀ b ∈ rest, (!Command.opens b) = true := by
      intro b hm
      rw [hb b (List.mem_cons_of_mem first hm)]
      rfl
    have hrest : ((rest ++ pieces.flatMap Prod.snd).takeWhile fun b => !Command.opens b) =
        rest := by
      rw [List.takeWhile_append_of_pos hskipped, h.takeWhile_eq_nil hn, List.append_nil]
    rw [List.cons_append, Command.streams.decode_unknown _ (hb first List.mem_cons_self),
      resync, hrest, List.length_cons, Nat.add_comm]
    exact ⟨rfl, rfl⟩

/-- **One piece** of a stream: what stands in front of it taken, the next item is that of the piece,
and what is left are the pieces behind it. -/
theorem next?_append (h : Littered cs (before ++ piece :: after))
    (hc : cs.IsChain fun c d => Command.runsInto c d = false) :
    Reader.next? Command.format ⟨(piece :: after).flatMap Prod.snd⟩ =
      some (piece.1, ⟨after.flatMap Prod.snd⟩) := by
  obtain ⟨ds, es, rfl, hes⟩ := h.of_append
  obtain ⟨hitem, hconsumed⟩ := hes.decode_cons hc.right_of_append
  rw [List.flatMap_cons, Reader.next?_eq, hitem, hconsumed, List.drop_left]
  rfl

/-- **All that a stream gives** are the items of its pieces, and no bytes are left.

**Proof sketch.** Induction on the pieces. The first is decoded as its item and takes its own bytes,
and the rest is littered with the commands that are left. -/
theorem drain_eq (h : Littered cs pieces)
    (hc : cs.IsChain fun c d => Command.runsInto c d = false) :
    Reader.drain Command.format ⟨pieces.flatMap Prod.snd⟩ = (pieces.map Prod.fst, .empty) := by
  induction pieces generalizing cs with
  | nil => exact Reader.drain_nil _
  | cons piece pieces ih =>
    obtain ⟨hitem, hconsumed⟩ := h.decode_cons hc
    have hsplit : Littered cs ([piece] ++ pieces) := h
    obtain ⟨ds, es, rfl, hes⟩ := hsplit.of_append
    rw [List.flatMap_cons, Reader.drain_of_item hitem, hconsumed, List.drop_left,
      ih hes hc.right_of_append]
    rfl

end Littered

end Script

end DebugWire
