import DebugWire.Proofs.Json.Numerals

set_option relaxedAutoImplicit false
set_option autoImplicit false

/-!
# Reading laid out JSON back

The text of a value with one item a line reads back as that value. The line ends and blanks of the
layout stand where the reader skips them. The numbers in the value may be any finite numbers of
binary64; one without a finite value is written as `null` and reads back as that.

## Main definitions

* `DebugWire.Json.layOutStyle` — how items are laid out on a level.
* `DebugWire.Json.Legible` — the values that read back.

## Main results

* `DebugWire.Json.readsAs_layOut` — a laid out value in front of further characters.
* `DebugWire.Json.parse?_pretty` — the text of a file.
-/

namespace DebugWire.Json

/-! ## Blanks -/

/-- Blanks are skipped one after the other, up to the first other character. -/
lemma skipGap_of_isGap {c : Char} (h : isGap c = true) (cs : List Char) :
    skipGap (c :: cs) = skipGap cs :=
  List.dropWhile_cons_of_pos h

/-- A blank may stand in front of a value, and is skipped when that is read. -/
lemma blanks_space : Blanks (' ' :: ·) where
  skip := skipGap_of_isGap rfl
  length _ := Nat.le_succ _
  ends _ _ := numberEnds_cons _ (by decide)

/-- A line end and the blanks of a level may stand in front.

**Proof sketch.** The line end is skipped, and by induction on their number the blanks of the level
are as well. -/
lemma blanks_newline (level : ℕ) : Blanks (newline level) where
  skip cs := by
    rw [newline, skipGap_of_isGap rfl]
    generalize 2 * level = n
    induction n with
    | zero => rfl
    | succ n ih => rw [List.replicate_succ, List.cons_append, skipGap_of_isGap rfl, ih]
  length cs := by
    rw [newline, List.length_cons, List.length_append]
    omega
  ends _ _ := numberEnds_cons _ (by decide)

/-- On a level, items stand on lines of their own one level further in. -/
def layOutStyle (level : ℕ) : Style where
  item := layOut (level + 1)
  items := layOutItems level
  members := layOutMembers level
  gap := newline (level + 1)
  colon := (' ' :: ·)
  last := newline level
  blanks_gap := blanks_newline (level + 1)
  blanks_colon := blanks_space
  blanks_last := blanks_newline level
  items_nil _ := rfl
  items_cons _ _ _ := rfl
  members_nil _ := rfl
  members_cons _ _ _ _ := rfl

/-! ## Values -/

/-- The values whose text reads back: their numbers are finite numbers of binary64, and their
objects list their members as objects do. -/
inductive Legible : Json → Prop
  | null : Legible null
  | bool (b : Bool) : Legible (bool b)
  | number {x : Number} : x.IsFinite → x.IsBinary64 → Legible (number x)
  | string (s : String) : Legible (string s)
  | array {items : List Json} : (∀ v ∈ items, Legible v) → Legible (array items)
  | object {members : List (String × Json)} : ofMembers members = object members →
    (∀ m ∈ members, Legible m.2) → Legible (object members)

/-- Finite numbers read back from what is written for them, whatever follows that does not go on
with the number. -/
lemma readsAs_number {x : Number} (hx : x.IsFinite) (hb : x.IsBinary64) {rest : List Char}
    (hr : NumberEnds rest) :
    ReadsAs (number x) (write (number x) rest) rest := by
  have htext : write (number x) rest = x.chars ++ rest := by
    cases x with
    | whole | fraction => rfl
    | infinite | nan => exact hx.elim
  rw [htext]
  exact readsAs_append (fun _ => readNumber?_chars_of_isFinite hx hb) hr

/-- **Laid out values read back** in front of further characters that do not go on with a number.

**Proof sketch.** Induction on the value, at any level. A value that is laid out on one line is
written as such; the items of an array and the members of an object stand behind line ends, which
are skipped. -/
theorem readsAs_layOut {v : Json} (h : Legible v) (level : ℕ) {rest : List Char}
    (hr : NumberEnds rest) :
    ReadsAs v (layOut level v rest) rest := by
  induction h generalizing level rest with
  | null => exact readsAs_null rest
  | bool b => exact readsAs_bool b rest
  | number hx hb => exact readsAs_number hx hb hr
  | string s => exact readsAs_string s rest
  | @array items _ ih =>
    cases items with
    | nil => exact readsAs_array_nil rest
    | cons v items =>
      exact (layOutStyle level).readsAs_array (fun w hw _ hr => ih w hw (level + 1) hr) rest
  | @object members ho _ ih =>
    cases members with
    | nil => exact readsAs_object_nil rest
    | cons m members =>
      exact (layOutStyle level).readsAs_object ho (fun m hm _ hr => ih m hm (level + 1) hr) rest

/-! ## Files -/

/-- What stands behind a string goes on behind its text. -/
lemma writeString_append (s : String) (cs rest : List Char) :
    writeString s (cs ++ rest) = writeString s cs ++ rest := by
  rw [writeString, writeString, List.cons_append]
  congr 1
  induction s.toList with
  | nil => rfl
  | cons c s ih => rw [List.foldr_cons, List.foldr_cons, ih, List.append_assoc]

mutual

/-- What stands behind a value goes on behind its text. -/
lemma write_append : ∀ (v : Json) (cs rest : List Char), write v (cs ++ rest) = write v cs ++ rest
  | .null, _, _ | .bool true, _, _ | .bool false, _, _ | .array [], _, _ | .object [], _, _ => rfl
  | .number x, cs, rest => (List.append_assoc _ cs rest).symm
  | .string s, cs, rest => writeString_append s cs rest
  | .array (v :: vs), cs, rest => by
    rw [write, write, writeItems_append vs, write_append v, List.cons_append]
  | .object ((n, v) :: ms), cs, rest => by
    rw [write, write, writeMembers_append ms, write_append v, ← List.cons_append,
      writeString_append, List.cons_append]

/-- What stands behind an array goes on behind its items. -/
lemma writeItems_append : ∀ (vs : List Json) (cs rest : List Char),
    writeItems vs (cs ++ rest) = writeItems vs cs ++ rest
  | [], _, _ => rfl
  | v :: vs, cs, rest => by
    rw [writeItems, writeItems, writeItems_append vs, write_append v, List.cons_append]

/-- What stands behind an object goes on behind its members. -/
lemma writeMembers_append : ∀ (ms : List (String × Json)) (cs rest : List Char),
    writeMembers ms (cs ++ rest) = writeMembers ms cs ++ rest
  | [], _, _ => rfl
  | (n, v) :: ms, cs, rest => by
    rw [writeMembers, writeMembers, writeMembers_append ms, write_append v, ← List.cons_append,
      writeString_append, List.cons_append]

end

/-- What stands behind a line end goes on behind its blanks. -/
lemma newline_append (level : ℕ) (cs rest : List Char) :
    newline level (cs ++ rest) = newline level cs ++ rest := by
  rw [newline, newline, List.cons_append, List.append_assoc]

mutual

/-- What stands behind a value goes on behind its laid out text. -/
lemma layOut_append : ∀ (level : ℕ) (v : Json) (cs rest : List Char),
    layOut level v (cs ++ rest) = layOut level v cs ++ rest
  | _, .null, _, _ | _, .bool true, _, _ | _, .bool false, _, _ | _, .array [], _, _ | _,
      .object [], _, _ => rfl
  | _, .number x, cs, rest => write_append (.number x) cs rest
  | _, .string s, cs, rest => writeString_append s cs rest
  | level, .array (v :: vs), cs, rest => by
    rw [layOut, layOut, layOutItems_append level vs, layOut_append (level + 1) v, newline_append,
      List.cons_append]
  | level, .object ((n, v) :: ms), cs, rest => by
    rw [layOut, layOut, layOutMembers_append level ms, layOut_append (level + 1) v,
      ← List.cons_append, ← List.cons_append, writeString_append, newline_append, List.cons_append]

/-- What stands behind an array goes on behind its laid out items. -/
lemma layOutItems_append : ∀ (level : ℕ) (vs : List Json) (cs rest : List Char),
    layOutItems level vs (cs ++ rest) = layOutItems level vs cs ++ rest
  | level, [], cs, rest => newline_append level (']' :: cs) rest
  | level, v :: vs, cs, rest => by
    rw [layOutItems, layOutItems, layOutItems_append level vs, layOut_append (level + 1) v,
      newline_append, List.cons_append]

/-- What stands behind an object goes on behind its laid out members. -/
lemma layOutMembers_append : ∀ (level : ℕ) (ms : List (String × Json)) (cs rest : List Char),
    layOutMembers level ms (cs ++ rest) = layOutMembers level ms cs ++ rest
  | level, [], cs, rest => newline_append level ('}' :: cs) rest
  | level, (n, v) :: ms, cs, rest => by
    rw [layOutMembers, layOutMembers, layOutMembers_append level ms, layOut_append (level + 1) v,
      ← List.cons_append, ← List.cons_append, writeString_append, newline_append, List.cons_append]

end

/-- **The text of a file** with one item a line is that of the value that was laid out. -/
theorem parse?_pretty {v : Json} (h : Legible v) : parse? (v.pretty ++ "\n") = some v := by
  have htext : (v.pretty ++ "\n").toList = layOut 0 v ['\n'] := by
    rw [String.toList_append, pretty, String.toList_ofList]
    exact (layOut_append 0 v [] ['\n']).symm
  have hend : NumberEnds ['\n'] := numberEnds_cons _ (by decide)
  rw [parse?, htext, (readsAs_layOut h 0 hend).read _ (by omega)]
  rfl

end DebugWire.Json
