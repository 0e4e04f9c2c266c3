import DebugWire.Text.Units
import Mathlib.Data.Nat.Notation
import Mathlib.Tactic.Lemma

set_option relaxedAutoImplicit false
set_option autoImplicit false

/-!
# Characters from their units

The units of a text give its characters back, so that a text of characters is its own repaired text.
Only a surrogate without its partner is lost, and then one replacement character stands for it.

## Main results

* `DebugWire.Units.chars_ofText` — the units of a text give its characters.
* `DebugWire.Utf16.repaired_ofString` — a text of characters needs no repair.
-/

namespace DebugWire

namespace Units

variable {u w : ℕ}

/-! ## Units of one character -/

/-- The number of a character lies below the surrogates, or above them and in the range of Unicode.
-/
lemma toNat_cases (c : Char) : c.toNat < 0xd800 ∨ 0xdfff < c.toNat ∧ c.toNat < 0x110000 := c.valid

/-- The number of a character is that of neither half of a surrogate pair. -/
lemma isSurrogate_toNat (c : Char) :
    isHighSurrogate c.toNat = false ∧ isLowSurrogate c.toNat = false := by
  have hvalid := toNat_cases c
  constructor
  · simp only [isHighSurrogate, Bool.and_eq_false_iff, decide_eq_false_iff_not]
    omega
  · simp only [isLowSurrogate, Bool.and_eq_false_iff, decide_eq_false_iff_not]
    omega

/-- The number of a character, taken for a unit, gives that character. -/
lemma unitChar_toNat (c : Char) : unitChar c.toNat = c := by
  obtain ⟨hhigh, hlow⟩ := isSurrogate_toNat c
  rw [unitChar, hhigh, hlow, if_neg (by decide), Char.ofNat_toNat]

/-- A unit that begins no pair gives its own character, whatever follows. -/
lemma chars_cons (h : isHighSurrogate u = false) (us : List ℕ) :
    chars (u :: us) = unitChar u :: chars us := by
  cases us with
  | nil => rfl
  | cons w us => rw [chars, h, Bool.false_and, if_neg Bool.false_ne_true]

/-- A pair of units gives one character, whatever follows. -/
lemma chars_pair (hu : isHighSurrogate u = true) (hw : isLowSurrogate w = true) (us : List ℕ) :
    chars (u :: w :: us) = pairChar u w :: chars us := by
  rw [chars, hu, hw, Bool.and_self, if_pos rfl]

/-- The units of a character give it back, whatever follows.

**Proof sketch.** A character up to `U+FFFF` is its own unit, which is no surrogate. Any other one
is split into the quotient and the remainder of its number by `0x400`, and the pair puts these
together again. -/
lemma chars_ofChar_append (c : Char) (us : List ℕ) : chars (ofChar c ++ us) = c :: chars us := by
  have hvalid := toNat_cases c
  unfold ofChar
  dsimp only
  split
  · rw [List.singleton_append, chars_cons (isSurrogate_toNat c).1, unitChar_toNat]
  · have hhigh : isHighSurrogate (0xd800 + (c.toNat - 0x10000) / 0x400) = true := by
      simp only [isHighSurrogate, Bool.and_eq_true, decide_eq_true_eq]
      omega
    have hlow : isLowSurrogate (0xdc00 + (c.toNat - 0x10000) % 0x400) = true := by
      simp only [isLowSurrogate, Bool.and_eq_true, decide_eq_true_eq]
      omega
    have hback : 0x10000 + (0xd800 + (c.toNat - 0x10000) / 0x400 - 0xd800) * 0x400 +
        (0xdc00 + (c.toNat - 0x10000) % 0x400 - 0xdc00) = c.toNat := by
      omega
    rw [List.cons_append, List.singleton_append, chars_pair hhigh hlow, pairChar, hback,
      Char.ofNat_toNat]

/-- A unit of a character takes sixteen bits, one of a pair as well. -/
lemma lt_of_mem_ofChar {c : Char} (h : u ∈ ofChar c) : u < 0x10000 := by
  have hvalid := toNat_cases c
  unfold ofChar at h
  dsimp only at h
  split at h
  · rw [List.mem_singleton.1 h]
    omega
  · simp only [List.mem_cons, List.not_mem_nil, or_false] at h
    omega

/-! ## Units of a text -/

/-- The units of a text give its characters back. -/
lemma chars_ofText (s : String) : chars (ofText s) = s.toList := by
  rw [ofText]
  induction s.toList with
  | nil => rfl
  | cons c cs ih => rw [List.flatMap_cons, chars_ofChar_append, ih]

/-- The units of a text are kept as sixteen bits each. -/
lemma map_toNat_map_ofNat (s : String) :
    ((ofText s).map UInt16.ofNat).map UInt16.toNat = ofText s := by
  rw [List.map_map, List.map_congr_left (g := id), List.map_id]
  intro u hu
  obtain ⟨c, -, hu⟩ := List.mem_flatMap.1 hu
  exact UInt16.toNat_ofNat_of_lt' (lt_of_mem_ofChar hu)

end Units

namespace Utf16

/-- **A text of characters needs no repair**, since it has no half of a pair. -/
@[simp]
theorem repaired_ofString (s : String) : (ofString s).repaired = s := by
  rw [repaired, ofString, Units.map_toNat_map_ofNat, Units.chars_ofText, String.ofList_toList]

end Utf16

end DebugWire
