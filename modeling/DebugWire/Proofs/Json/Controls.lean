import DebugWire.Json.Printer
import Mathlib.Data.Nat.Notation
import Mathlib.Tactic.Lemma
import Mathlib.Tactic.SplitIfs

set_option relaxedAutoImplicit false
set_option autoImplicit false

/-!
# One line of JSON

The text of a value without blanks is one line. Whatever its strings hold, no character below
`U+0020` is in it: a string is written with escapes in place of these, and nothing else that is
written is one of them.

## Main definitions

* `DebugWire.Json.NoControls` — characters of which none is below `U+0020`.

## Main results

* `DebugWire.Json.noControls_chars` — the text of a number.
* `DebugWire.Json.noControls_writeString` — a string.
* `DebugWire.Json.noControls_compact` — any value.
-/

namespace DebugWire.Json

/-- There are *no controls* among characters if none is below `U+0020`. -/
def NoControls (cs : List Char) : Prop := ∀ c ∈ cs, 0x20 ≤ c.toNat

variable {c : Char} {cs ds rest : List Char} {n : ℕ}

/-- There are no controls in no characters. -/
lemma noControls_nil : NoControls [] := nofun

/-- Another character that is no control leaves no controls. -/
lemma NoControls.cons (hc : 0x20 ≤ c.toNat) (h : NoControls cs) : NoControls (c :: cs) :=
  List.forall_mem_cons.2 ⟨hc, h⟩

/-- There are no controls in two lists of characters together if there are none in either. -/
lemma NoControls.append (h : NoControls cs) (hd : NoControls ds) : NoControls (cs ++ ds) :=
  List.forall_mem_append.2 ⟨h, hd⟩

/-- There are no controls in the first of characters without them. -/
lemma NoControls.take (h : NoControls cs) (n : ℕ) : NoControls (cs.take n) :=
  fun c hc => h c (List.mem_of_mem_take hc)

/-- There are no controls in the last of characters without them. -/
lemma NoControls.drop (h : NoControls cs) (n : ℕ) : NoControls (cs.drop n) :=
  fun c hc => h c (List.mem_of_mem_drop hc)

/-- There are no controls in copies of a character that is none. -/
lemma noControls_replicate (hc : 0x20 ≤ c.toNat) (n : ℕ) : NoControls (List.replicate n c) := by
  intro d hd
  rwa [List.eq_of_mem_replicate hd]

/-! ## Numbers -/

/-- No number is written as a control where a digit is expected. -/
lemma digitChar_ge (d : ℕ) : 0x20 ≤ (Nat.digitChar d).toNat := by
  by_cases h : d < 16
  · revert d
    decide
  · have hstar : Nat.digitChar d = '*' := by
      unfold Nat.digitChar
      iterate 16 rw [if_neg (by omega)]
    rw [hstar]
    decide

/-- There are no controls in digits, all of which can be printed. -/
lemma noControls_map_digitChar (ds : List ℕ) : NoControls (ds.map Nat.digitChar) := by
  intro c hc
  obtain ⟨d, -, rfl⟩ := List.mem_map.1 hc
  exact digitChar_ge d

/-- There are no controls in digits with a point or an exponent.

**Proof sketch.** One case for each form of a numeral: what is put in is the point, zeros, and the
exponent with its sign, and the digits themselves are taken apart. -/
lemma noControls_layout (h : NoControls ds) (point : Int) :
    NoControls (Number.layout ds point) := by
  unfold Number.layout
  dsimp only
  split_ifs
  · exact h.append (noControls_replicate (by decide) _)
  · exact (h.take _).append (.cons (by decide) (h.drop _))
  · exact .cons (by decide) (.cons (by decide) ((noControls_replicate (by decide) _).append h))
  all_goals
    refine .append ?_ (.cons (by decide) (.cons (by decide) (noControls_map_digitChar _)))
    split
    · obtain ⟨hd, h⟩ := List.forall_mem_cons.1 h
      exact .cons hd (.cons (by decide) h)
    · exact h

/-- There are no controls in the text of a magnitude. -/
lemma noControls_magnitudeText (num den : ℕ) : NoControls (Number.magnitudeText num den) := by
  unfold Number.magnitudeText
  split_ifs
  · exact noControls_map_digitChar _
  · exact noControls_layout (noControls_map_digitChar _) _

/-- A sign is no control, so it may stand in front of a number. -/
lemma NoControls.signed (h : NoControls cs) (negative : Bool) :
    NoControls (Number.signed negative cs) := by
  cases negative with
  | false => exact h
  | true => exact .cons (by decide) h

/-- There are no controls in the text of a number. -/
theorem noControls_chars (x : Number) : NoControls x.chars := by
  cases x with
  | whole n => exact (noControls_magnitudeText _ _).signed _
  | fraction m k _ => exact (noControls_magnitudeText _ _).signed _
  | infinite negative =>
    have hword : NoControls ['I', 'n', 'f', 'i', 'n', 'i', 't', 'y'] := by simp [NoControls]
    exact hword.signed negative
  | nan => simp [NoControls, Number.chars]

/-- There are no controls where a number is written. -/
lemma noControls_numberChars (x : Number) : NoControls (numberChars x) := by
  have hnull : NoControls ['n', 'u', 'l', 'l'] := by simp [NoControls]
  unfold numberChars
  split
  · exact hnull
  · exact hnull
  · exact noControls_chars x

/-! ## Strings -/

/-- There are no controls where a character stands in a string. -/
lemma noControls_escape (c : Char) : NoControls (escape c) := by
  unfold escape
  split_ifs
  -- The characters that are escaped by a letter of their own.
  iterate 7 exact .cons (by decide) (.cons (by decide) noControls_nil)
  · refine .cons (by decide) (.cons (by decide) ?_)
    exact (noControls_replicate (by decide) _).append (noControls_map_digitChar _)
  · exact .cons (by omega) noControls_nil

/-- There are no controls in a string, whatever it holds. -/
theorem noControls_writeString (s : String) (h : NoControls rest) :
    NoControls (writeString s rest) := by
  refine .cons (by decide) ?_
  induction s.toList with
  | nil => exact .cons (by decide) h
  | cons c s ih => exact (noControls_escape c).append ih

/-! ## Values -/

mutual

/-- There are no controls in a value in front of characters without them.

**Proof sketch.** The recursion is that of `write`, together with those for the items of a list and
the members of an object. -/
lemma noControls_write :
    ∀ (v : Json) {rest : List Char}, NoControls rest → NoControls (write v rest)
  | .null, _, h | .bool true, _, h =>
    .cons (by decide) (.cons (by decide) (.cons (by decide) (.cons (by decide) h)))
  | .bool false, _, h =>
    .cons (by decide)
      (.cons (by decide) (.cons (by decide) (.cons (by decide) (.cons (by decide) h))))
  | .number x, _, h => (noControls_numberChars x).append h
  | .string s, _, h => noControls_writeString s h
  | .array [], _, h | .object [], _, h => .cons (by decide) (.cons (by decide) h)
  | .array (v :: vs), _, h => .cons (by decide) (noControls_write v (noControls_writeItems vs h))
  | .object ((n, v) :: ms), _, h =>
    .cons (by decide)
      (noControls_writeString n
        (.cons (by decide) (noControls_write v (noControls_writeMembers ms h))))

/-- There are no controls in further items, each of which stands behind a comma. -/
lemma noControls_writeItems :
    ∀ (vs : List Json) {rest : List Char}, NoControls rest → NoControls (writeItems vs rest)
  | [], _, h => .cons (by decide) h
  | v :: vs, _, h => .cons (by decide) (noControls_write v (noControls_writeItems vs h))

/-- There are no controls in further members, each of which stands behind a comma and has its name
in front. -/
lemma noControls_writeMembers : ∀ (ms : List (String × Json)) {rest : List Char},
    NoControls rest → NoControls (writeMembers ms rest)
  | [], _, h => .cons (by decide) h
  | (n, v) :: ms, _, h =>
    .cons (by decide)
      (noControls_writeString n
        (.cons (by decide) (noControls_write v (noControls_writeMembers ms h))))

end

/-- **The text of a value** is one line without controls. -/
theorem noControls_compact (v : Json) : NoControls v.compact.toList := by
  rw [compact, String.toList_ofList]
  exact noControls_write v noControls_nil

/-- There are no line ends in the text of a value. -/
theorem not_mem_compact (v : Json) : '\n' ∉ v.compact.toList ∧ '\r' ∉ v.compact.toList :=
  ⟨fun h => absurd (noControls_compact v _ h) (by decide),
    fun h => absurd (noControls_compact v _ h) (by decide)⟩

end DebugWire.Json
