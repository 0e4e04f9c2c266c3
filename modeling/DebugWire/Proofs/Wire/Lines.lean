import DebugWire.Proofs.Json.Controls
import DebugWire.Proofs.Wire.Canonical
import DebugWire.Proofs.Wire.Printable

set_option relaxedAutoImplicit false
set_option autoImplicit false

/-!
# Streams as lines

A captured stream is shown as one line for each item that a reader hands out for it, whatever its
bytes are. What a decoder accepts can be written, so each frame is read back from its line, and no
two frames have the same one. An error has a line of another shape. Since text is written with
escapes, no line has an end inside of it.

## Main definitions

* `DebugWire.Shows` — a line that shows an item.
* `DebugWire.ShowsStream` — lines that show a stream.
* `DebugWire.ShowsStreams` — any stream in either direction is shown by its lines.

## Main results

* `DebugWire.showsStream_printStream` — any stream of frames that are read back from their objects.
* `DebugWire.shows_streams` — both directions.
-/

namespace DebugWire

variable {α : Type} {f : Format α} {toJson : α → Json} {ofJson? : Json → Option α}

/-- A line *shows* an item: it reads as the object of a frame, and the frame is read back from that,
or it reads as the object of an error. -/
inductive Shows (toJson : α → Json) (ofJson? : Json → Option α) (line : String) : Item α → Prop
  | value {a : α} : Json.parse? line = some (toJson a) → ofJson? (toJson a) = some a →
    Shows toJson ofJson? line (.value a)
  | malformed {cause : Malformed} :
      Json.parse? line = some (.object [("error", .string cause.message)]) →
    Shows toJson ofJson? line (.malformed cause)

/-- Lines and a number *show a stream* of frames. -/
structure ShowsStream (f : Format α) (toJson : α → Json) (ofJson? : Json → Option α) (bytes : Bytes)
    (shown : List String × ℕ) : Prop where
  /-- There is one line for each item that a reader hands out, in their order. -/
  lines : shown.1 = ((Reader.empty.push bytes).drain f).1.map (itemLine toJson)
  /-- The line of each item shows it. -/
  shows : ∀ i ∈ ((Reader.empty.push bytes).drain f).1, Shows toJson ofJson? (itemLine toJson i) i
  /-- A line is one line. -/
  one_line : ∀ line ∈ shown.1, '\n' ∉ line.toList ∧ '\r' ∉ line.toList
  /-- What has the line of a frame is this frame, also where another stream is shown. -/
  alike : ∀ other a i, .value a ∈ ((Reader.empty.push bytes).drain f).1 →
  i ∈ ((Reader.empty.push other).drain f).1 →
    itemLine toJson i = itemLine toJson (.value a) → i = .value a
  /-- The number is that of the bytes that are left in the reader. -/
  left : shown.2 = ((Reader.empty.push bytes).drain f).2.size

/-! ## Lines -/

/-- A line has no end inside of it, neither of the two characters that end one. -/
lemma not_mem_itemLine (toJson : α → Json) (i : Item α) :
    '\n' ∉ (itemLine toJson i).toList ∧ '\r' ∉ (itemLine toJson i).toList := by
  cases i with
  | value a => exact Json.not_mem_compact _
  | malformed cause => exact Json.not_mem_compact _

/-- The object of an error reads back, whatever its message is. -/
lemma faithful_error (message : String) : (Json.object [("error", .string message)]).Faithful := by
  have hplain : ["error"].Nodup ∧ ∀ n ∈ ["error"], Json.arrayIndex? n = none := by decide
  exact .object (Json.ofMembers_eq hplain.1 hplain.2)
    (List.forall_mem_singleton.2 (.string message))

/-- The line of an item shows it if its frame is read back. -/
lemma shows_itemLine {i : Item α}
    (h : ∀ a, i = .value a → (toJson a).Faithful ∧ ofJson? (toJson a) = some a) :
    Shows toJson ofJson? (itemLine toJson i) i := by
  cases i with
  | value a => exact .value (Json.parse?_compact (h a rfl).1) (h a rfl).2
  | malformed cause => exact .malformed (Json.parse?_compact (faithful_error _))

/-- A line that shows a frame shows nothing else.

**Proof sketch.** If the line shows another frame, the values in JSON are the same, and reading them
back gives the same frame. It shows no error, because the object of one is not read back as a frame.
-/
lemma Shows.eq_value {line : String} {a : α} {i : Item α} (h : Shows toJson ofJson? line (.value a))
    (hi : Shows toJson ofJson? line i)
    (herror : ∀ message, ofJson? (.object [("error", .string message)]) = none) :
    i = .value a := by
  obtain ⟨hparse, hback⟩ | _ := h
  cases hi with
  | @value b hparse' hback' =>
    obtain hsame : toJson a = toJson b := Option.some.inj (hparse.symm.trans hparse')
    rw [hsame, hback'] at hback
    rw [Option.some.inj hback]
  | malformed hparse' =>
    obtain hsame := Option.some.inj (hparse.symm.trans hparse')
    rw [hsame, herror] at hback
    cases hback

/-! ## Streams -/

/-- **A stream is shown by its lines** if decoded frames are read back from their objects, and these
from their text.

**Proof sketch.** Each item that is drained is shown by its line, since a value among them was
decoded from some bytes. Two lines are the same only if they show the same, because a line that is
read back as a value has no other meaning. -/
theorem showsStream_printStream
    (hback : ∀ {bytes a n}, f.decode bytes = .value a n → (toJson a).Faithful ∧
      ofJson? (toJson a) = some a)
    (herror : ∀ message, ofJson? (.object [("error", .string message)]) = none) (bytes : Bytes) :
    ShowsStream f toJson ofJson? bytes (printStream f toJson bytes) := by
  have hshows (bytes : Bytes) : ∀ i ∈ ((Reader.empty.push bytes).drain f).1,
      Shows toJson ofJson? (itemLine toJson i) i := by
    intro i hi
    refine shows_itemLine fun a ha => ?_
    subst ha
    obtain ⟨rest, n, hdecode⟩ := Reader.exists_decode_of_mem_drain f hi
    exact hback hdecode
  refine ⟨rfl, hshows bytes, ?_, fun other a i ha hi hsame => ?_, rfl⟩
  · intro line hline
    obtain ⟨i, -, rfl⟩ := List.mem_map.1 hline
    exact not_mem_itemLine toJson i
  · -- The line shows both items, and a line that shows a frame shows nothing else.
    have hline := hshows other i hi
    rw [hsame] at hline
    exact (hshows bytes _ ha).eq_value hline herror

/-- Any stream is shown by its lines. -/
structure ShowsStreams : Prop where
  /-- Streams of commands. -/
  commands :
    ∀ bytes, ShowsStream Command.format Command.toJson Command.ofJson? bytes (printCommands bytes)
  /-- Streams of events. -/
  events : ∀ bytes, ShowsStream Event.format Event.toJson Event.ofJson? bytes (printEvents bytes)
  /-- No line shows both a command and an event. -/
  apart : ∀ line c e, Shows Command.toJson Command.ofJson? line (.value c) →
    ¬ Shows Event.toJson Event.ofJson? line (.value e)

/-- Commands and events have different kinds, so their objects are never the same. -/
lemma Command.toJson_ne_toJson (c : Command) (e : Event) : c.toJson ≠ e.toJson := by
  have hnames : ∀ t ∈ CommandTag.all, ∀ u ∈ EventTag.all, t.name ≠ u.name := by decide
  have hc : ∀ t, t ∈ CommandTag.all := fun t => by cases t <;> decide
  have he : ∀ u, u ∈ EventTag.all := fun u => by cases u <;> decide
  intro h
  obtain ⟨htype, -⟩ := List.cons.inj (Json.object.inj h)
  exact hnames _ (hc c.tag) _ (he e.tag) (Json.string.inj (Prod.mk.inj htype).2)

/-- **Streams in both directions** are shown by their lines.

**Proof sketch.** What was decoded can be written, so its object is faithful and is read back. No
object is that of a command and of an event, so no line shows both. -/
theorem shows_streams : ShowsStreams where
  commands bytes := by
    refine showsStream_printStream (fun {bytes c n} h => ?_) (fun _ => rfl) bytes
    have hcarried := Command.accepts.carried h
    rw [Command.codec_carried] at hcarried
    refine ⟨Command.faithful_toJson (Command.encodes_of_decode h), ?_⟩
    rw [Command.ofJson?_toJson, hcarried]
  events bytes := by
    refine showsStream_printStream (fun {bytes e n} h => ?_) (fun _ => rfl) bytes
    obtain ⟨frames, he, -⟩ := Event.accepts.written_again h
    exact ⟨Event.faithful_toJson he, Event.ofJson?_toJson e⟩
  apart line c e hc he := by
    obtain ⟨hparse, -⟩ | _ := hc
    obtain ⟨hparse', -⟩ | _ := he
    exact c.toJson_ne_toJson e (Option.some.inj (hparse.symm.trans hparse'))

end DebugWire
