import DebugWire.Proofs.Hex
import DebugWire.Proofs.Number.Reading
import DebugWire.Proofs.Text.Words
import Mathlib.Algebra.Group.Even

set_option relaxedAutoImplicit false
set_option autoImplicit false

/-!
# Which texts are hex

A text holds the characters that are left of it when one mark of base sixteen is taken off its
front, if it has one there, and then all blanks and colons are taken out. It is read exactly if
these characters are an even number of digits. They are then the digits of the bytes that are read,
but for the letter case.

The mark is looked for first. Behind a blank it is none, and its letter makes the text unreadable.

## Main definitions

* `DebugWire.Hex.twoDigits` — a byte in base sixteen.
* `DebugWire.Hex.Spread` — characters and a text that has them with separators among them.
* `DebugWire.Hex.Holds` — a text and the characters that it holds.
* `DebugWire.Hex.ArePairs` — an even number of digits.
* `DebugWire.Hex.ReadsByDigits` — how texts are read.

## Main results

* `DebugWire.Hex.parse?_cases` — a text and the characters that it holds.
* `DebugWire.Hex.parse?_of_spread` — the digits of bytes, spelled in another way.
* `DebugWire.Hex.reads_by_digits` — any text.
-/

namespace DebugWire.Hex

open Digits (IsDigit)
open Text (SameLetters)

/-! ## Two digits -/

/-- The two digits of a byte in base sixteen. -/
def twoDigits (b : UInt8) : List Char := List.leftpad 2 '0' (Nat.toDigits 16 b.toNat)

/-- A byte is written as its two digits, the high half first. -/
lemma byteChars_eq (b : UInt8) : byteChars b = twoDigits b := by
  have hb := b.toNat_lt
  rw [byteChars, twoDigits]
  rcases Nat.lt_or_ge b.toNat 16 with h | h
  · rw [Nat.toDigits_of_lt_base h, Nat.div_eq_of_lt h, Nat.mod_eq_of_lt h]
    rfl
  · rw [Nat.toDigits_of_base_le (by decide) h, Nat.toDigits_of_lt_base (by omega)]
    rfl

/-! ## What a text holds -/

/-- Characters are *spread* over a text: it has them in their order, with separators anywhere among
them. -/
inductive Spread : List Char → List Char → Prop
  | nil : Spread [] []
  | gap {c : Char} {cs text : List Char} : isSeparator c = true → Spread cs text →
      Spread cs (c :: text)
  | cons (c : Char) {cs text : List Char} : Spread cs text → Spread (c :: cs) (c :: text)

/-- What is left of a text when one mark of base sixteen is taken off its front, if it has one
there. -/
inductive Unmarks : List Char → List Char → Prop
  | marked {x : Char} {rest : List Char} : x = 'x' ∨ x = 'X' → Unmarks ('0' :: x :: rest) rest
  | plain {text : List Char} : ¬ ['0', 'x'] <+: text → ¬ ['0', 'X'] <+: text → Unmarks text text

/-- A text *holds* the characters that are left of it without one mark in front and without all
separators. -/
def Holds (s : String) (cs : List Char) : Prop :=
  ∃ rest, Unmarks s.toList rest ∧ Spread cs rest ∧ ∀ c ∈ cs, isSeparator c = false

variable {c : Char} {cs cs' rest text text' : List Char} {d : ℕ} {s : String} {bytes : Bytes}

/-- A text has its characters with no separators among them. -/
lemma Spread.refl (cs : List Char) : Spread cs cs := by
  induction cs with
  | nil => exact .nil
  | cons c cs ih => exact .cons c ih

/-- Two texts one behind the other are spread over the two spreads one behind the other. -/
lemma Spread.append (h : Spread cs text) (h' : Spread cs' text') :
    Spread (cs ++ cs') (text ++ text') := by
  induction h with
  | nil => exact h'
  | gap hc _ ih => exact .gap hc ih
  | cons c _ ih => exact .cons c ih

/-- Taking out separators leaves what is spread over them. -/
lemma spread_filter (text : List Char) : Spread (text.filter fun c => !isSeparator c) text := by
  induction text with
  | nil => exact .nil
  | cons c text ih =>
    cases hc : isSeparator c with
    | true => simpa [hc] using Spread.gap hc ih
    | false => simpa [hc] using Spread.cons c ih

/-- Nothing but separators is added to what is spread. -/
lemma Spread.filter_eq (h : Spread cs text) :
    (text.filter fun c => !isSeparator c) = cs.filter fun c => !isSeparator c := by
  induction h with
  | nil => rfl
  | gap hc _ ih => simp [hc, ih]
  | cons c _ ih => rw [List.filter_cons, List.filter_cons, ih]

/-- A mark is dropped if it is there, and nothing else is.

**Proof sketch.** The patterns of `dropMark` are the two marks, so it drops one exactly if the text
begins with it. -/
lemma unmarks_iff : Unmarks text rest ↔ dropMark text = rest := by
  constructor
  · rintro (⟨rfl | rfl⟩ | ⟨h, h'⟩)
    · rfl
    · rfl
    · unfold dropMark
      split
      · exact absurd (List.prefix_append ['0', 'x'] _) h
      · exact absurd (List.prefix_append ['0', 'X'] _) h'
      · rfl
  · rintro rfl
    unfold dropMark
    split
    · exact .marked (.inl rfl)
    · exact .marked (.inr rfl)
    · rename_i h h'
      refine .plain ?_ ?_
      · rintro ⟨rest, hrest⟩
        exact h rest hrest.symm
      · rintro ⟨rest, hrest⟩
        exact h' rest hrest.symm

/-- **The characters that a text holds** are those that are read as digits. -/
lemma holds_iff : Holds s cs ↔ digits s.toList = cs := by
  constructor
  · rintro ⟨rest, hrest, hspread, hcs⟩
    rw [digits, unmarks_iff.1 hrest, hspread.filter_eq, List.filter_eq_self]
    intro c hc
    simp [hcs c hc]
  · rintro rfl
    refine ⟨dropMark s.toList, unmarks_iff.2 rfl, spread_filter _, fun c hc => ?_⟩
    simpa using (List.mem_filter.1 hc).2

/-! ## Reading pairs of digits -/

/-- Characters are *pairs*: an even number of digits in base sixteen, each in either letter case. -/
def ArePairs (cs : List Char) : Prop := Even cs.length ∧ ∀ c ∈ cs, ∃ d, IsDigit 16 c d

/-- A digit in lower case is the one that is written for its value. -/
lemma toLower_of_isDigit (h : IsDigit 16 c d) : c.toLower = Nat.digitChar d := by
  obtain ⟨hd, hc⟩ := h
  have hall : ∀ d < 16, (Nat.digitChar d).toLower = Nat.digitChar d ∧
      (Nat.digitChar d).toUpper.toLower = Nat.digitChar d := by decide
  rcases hc with rfl | rfl
  · exact (hall d hd).1
  · exact (hall d hd).2

/-- The two digits of the byte that was read from them. -/
lemma byteChars_ofNat {x y : ℕ} (hx : x < 16) (hy : y < 16) :
    byteChars (UInt8.ofNat (x * 16 + y)) = [Nat.digitChar x, Nat.digitChar y] := by
  have hbyte : (UInt8.ofNat (x * 16 + y)).toNat = x * 16 + y := by
    rw [UInt8.toNat_ofNat']
    omega
  have hhigh : (x * 16 + y) / 16 = x := by omega
  have hlow : (x * 16 + y) % 16 = y := by omega
  rw [byteChars, hbyte, hhigh, hlow]

/-- Two more digits in front make one more pair. -/
lemma arePairs_cons_cons {a b : Char} :
    ArePairs (a :: b :: cs) ↔ (∃ x, IsDigit 16 a x) ∧ (∃ y, IsDigit 16 b y) ∧ ArePairs cs := by
  have heven : Even (cs.length + 1 + 1) ↔ Even cs.length := by
    simp [Nat.even_add_one]
  simp only [ArePairs, List.length_cons, List.forall_mem_cons, heven]
  tauto

/-- Characters are read as the bytes that have them as digits, or they are no pairs.

**Proof sketch.** Induction on the characters, two at a time. -/
lemma pairsFrom?_cases (seen : Bytes) (cs : List Char) :
    (ArePairs cs ∧ ∃ bytes, pairsFrom? seen cs = some (seen.reverse ++ bytes) ∧
      chars bytes = cs.map Char.toLower) ∨
    (¬ ArePairs cs ∧ pairsFrom? seen cs = none) := by
  induction cs using List.twoStepInduction generalizing seen with
  | nil => exact .inl ⟨⟨Even.zero, List.forall_mem_nil _⟩, [], by rw [List.append_nil]; rfl, rfl⟩
  | singleton c => exact .inr ⟨fun h => Nat.not_even_one h.1, rfl⟩
  | cons_cons a b cs ih =>
    rw [arePairs_cons_cons, pairsFrom?]
    cases ha : Digits.hexValue? a with
    | none =>
      refine .inr ⟨?_, rfl⟩
      rintro ⟨⟨x, hx⟩, -⟩
      rw [Digits.hexValue?_eq_some_iff.2 hx] at ha
      cases ha
    | some x =>
      cases hb : Digits.hexValue? b with
      | none =>
        refine .inr ⟨?_, rfl⟩
        rintro ⟨-, ⟨y, hy⟩, -⟩
        rw [Digits.hexValue?_eq_some_iff.2 hy] at hb
        cases hb
      | some y =>
        have hx := Digits.hexValue?_eq_some_iff.1 ha
        have hy := Digits.hexValue?_eq_some_iff.1 hb
        obtain ⟨hcs, bytes, hread, hchars⟩ | ⟨hcs, hread⟩ := ih (UInt8.ofNat (x * 16 + y) :: seen)
        · refine .inl ⟨⟨⟨x, hx⟩, ⟨y, hy⟩, hcs⟩, UInt8.ofNat (x * 16 + y) :: bytes, ?_, ?_⟩
          · simpa using hread
          · rw [chars, List.flatMap_cons, ← chars, byteChars_ofNat hx.1 hy.1, hchars, List.map_cons,
              List.map_cons, toLower_of_isDigit hx, toLower_of_isDigit hy]
            rfl
        · exact .inr ⟨fun h => hcs h.2.2, hread⟩

/-- What a text is read as, by the characters that it holds. -/
lemma parse?_cases (h : Holds s cs) :
    (ArePairs cs ∧ ∃ bytes, parse? s = some bytes ∧ chars bytes = cs.map Char.toLower) ∨
    (¬ ArePairs cs ∧ parse? s = none) := by
  rw [parse?, holds_iff.1 h]
  exact pairsFrom?_cases [] cs

/-! ## Other spellings -/

/-- The mark of base sixteen in front of a text, in either letter case, or none. -/
def marks : List String := ["", "0x", "0X"]

/-- A letter in another case separates nothing, and what separates has no case. -/
lemma isSeparator_lower (c : Char) : isSeparator (Text.lower c) = isSeparator c :=
  Text.lower_cases (P :=
    fun c c' => isSeparator c' = isSeparator c) rfl (by decide) (fun _ => rfl) c

/-- A character is a digit if it is one in lower case. -/
lemma isDigit_of_lower (hd : d < 16) (h : Text.lower c = Nat.digitChar d) : IsDigit 16 c d := by
  have hall : ∀ d < 16, Text.lower c = Nat.digitChar d → c = Nat.digitChar d ∨
      c = (Nat.digitChar d).toUpper :=
    Text.lower_cases
      (P := fun c c' => ∀ d < 16, c' = Nat.digitChar d → c = Nat.digitChar d ∨
        c = (Nat.digitChar d).toUpper)
      (by decide) (by decide) (fun _ _ _ => .inl) c
  exact ⟨hd, hall d hd h⟩

/-- Texts with the same letters hold the same letters. -/
lemma sameLetters_filter (h : SameLetters text text') :
    SameLetters (text.filter fun c => !isSeparator c) (text'.filter fun c => !isSeparator c) := by
  have hmap (cs : List Char) : (cs.filter fun c => !isSeparator c).map Text.lower =
      (cs.map Text.lower).filter fun c => !isSeparator c := by
    rw [List.filter_map]
    congr 2
    funext c
    simp [isSeparator_lower]
  rw [SameLetters, hmap, hmap, h]

/-- Each byte has two digits, so the length of a text tells how many bytes it has. -/
lemma length_chars (bytes : Bytes) : (chars bytes).length = 2 * bytes.length := by
  induction bytes with
  | nil => rfl
  | cons b bytes ih =>
    rw [chars, List.flatMap_cons, ← chars, List.length_append, ih, List.length_cons]
    show 2 + _ = _
    omega

/-- The digits of bytes are no separators and in lower case. -/
lemma of_mem_chars (h : c ∈ chars bytes) : isSeparator c = false ∧ Text.lower c = c := by
  have hall : ∀ d < 16, Text.lower (Nat.digitChar d) = Nat.digitChar d := by decide
  obtain ⟨d, hd, rfl⟩ := exists_of_mem_chars h
  exact ⟨(digitChar_plain hd).1, hall d hd⟩

/-- What has the letters of the digits of bytes is pairs.

**Proof sketch.** Each character has the letter of a digit, so it is one, of either case. There are
two digits for each byte, so their number is even. -/
lemma arePairs_of_map_lower (h : cs.map Text.lower = chars bytes) :
    ArePairs cs ∧ cs.map Char.toLower = chars bytes := by
  have hdigit : ∀ c ∈ cs, ∃ d, IsDigit 16 c d ∧ Text.lower c = Nat.digitChar d := by
    intro c hc
    obtain ⟨d, hd, hcd⟩ := exists_of_mem_chars (h ▸ List.mem_map_of_mem hc)
    exact ⟨d, isDigit_of_lower hd hcd, hcd⟩
  have hlength : cs.length = 2 * bytes.length := by
    rw [← length_chars, ← h, List.length_map]
  refine ⟨⟨⟨bytes.length, by omega⟩, fun c hc => ?_⟩, ?_⟩
  · obtain ⟨d, hd, -⟩ := hdigit c hc
    exact ⟨d, hd⟩
  · rw [← h, List.map_inj_left]
    intro c hc
    obtain ⟨d, hd, hcd⟩ := hdigit c hc
    rw [toLower_of_isDigit hd, hcd]

/-- The letter of a mark is none of the digits of bytes, and separates nothing.

**Proof sketch.** The letter of a mark does not separate, so it would be kept, and in lower case it
would be a digit. No digit is an `x`. -/
lemma markless_of_map_lower
    (h : (text.filter fun c => !isSeparator c).map Text.lower = chars bytes) :
    ∀ c ∈ text, c ≠ 'x' ∧ c ≠ 'X' := by
  intro c hc
  have hletter : isSeparator c = false → Text.lower c ≠ 'x' := by
    intro hsep hx
    have hkept : c ∈ text.filter fun c => !isSeparator c := List.mem_filter.2 ⟨hc, by simp [hsep]⟩
    obtain ⟨d, hd, hcd⟩ := exists_of_mem_chars (h ▸ List.mem_map_of_mem hkept)
    exact (digitChar_plain hd).2.1 (hcd.symm.trans hx)
  constructor
  · rintro rfl
    exact hletter (by decide) (by decide)
  · rintro rfl
    exact hletter (by decide) (by decide)

/-- A text without the letter of a mark holds what is left of it without separators, behind a mark
or none. -/
lemma holds_append {mark : String} (hmark : mark ∈ marks) (h : ∀ c ∈ text, c ≠ 'x' ∧ c ≠ 'X') :
    Holds (mark ++ String.ofList text) (text.filter fun c => !isSeparator c) := by
  rw [holds_iff, String.toList_append, String.toList_ofList, digits]
  simp only [marks, List.mem_cons, List.not_mem_nil, or_false] at hmark
  rcases hmark with rfl | rfl | rfl
  · rw [String.toList_empty, List.nil_append, dropMark_eq h]
  · rfl
  · rfl

/-- **The digits of bytes**, with separators among them, in any letter case and behind a mark or
none, read back as these bytes.

**Proof sketch.** Taking out the separators leaves the digits of the bytes but for their letter
case. They are pairs, and read as bytes with the same digits in lower case, so as the same bytes. -/
lemma parse?_of_spread (hspread : Spread (chars bytes) text) (hletters : SameLetters text text')
    {mark : String} (hmark : mark ∈ marks) : parse? (mark ++ String.ofList text') = some bytes := by
  have hlower : (text'.filter fun c => !isSeparator c).map Text.lower = chars bytes := by
    have hplain : ((chars bytes).filter fun c => !isSeparator c) = chars bytes :=
      List.filter_eq_self.2 fun c hc => by simp [(of_mem_chars hc).1]
    have h := sameLetters_filter hletters
    rw [hspread.filter_eq, hplain, SameLetters, eq_comm] at h
    rw [h, List.map_congr_left fun c hc => (of_mem_chars hc).2, List.map_id']
  obtain ⟨hpairs, hchars⟩ := arePairs_of_map_lower hlower
  obtain ⟨-, read, hread, hsame⟩ | ⟨hnot, -⟩ :=
    parse?_cases (holds_append hmark (markless_of_map_lower hlower))
  · have heq : ofBytes read = ofBytes bytes := by rw [ofBytes, ofBytes, hsame, hchars]
    rw [hread, ofBytes_inj.1 heq]
  · exact absurd hpairs hnot

/-- The digits of bytes read back with separators among them alone. -/
lemma parse?_ofList_of_spread (h : Spread (chars bytes) text) :
    parse? (String.ofList text) = some bytes := by
  have hletters : SameLetters text text := Eq.refl (text.map Text.lower)
  have hmark : "" ∈ marks := List.mem_cons_self
  have hread := parse?_of_spread h hletters hmark
  rwa [String.empty_append] at hread

/-! ## Texts -/

/-- How texts are read as bytes. -/
structure ReadsByDigits : Prop where
  /-- Bytes are written as two digits each. -/
  toList_ofBytes : ∀ bytes, (ofBytes bytes).toList = bytes.flatMap twoDigits
  /-- The digits of bytes read back as these bytes. -/
  parse_ofBytes : ∀ bytes, parse? (ofBytes bytes) = some bytes
  /-- They do so with separators among them, in any letter case and behind a mark or none. -/
  parse_respelled : ∀ {bytes : Bytes} {text text' : List Char} {mark : String},
    Spread (ofBytes bytes).toList text →
    SameLetters text text' → mark ∈ marks → parse? (mark ++ String.ofList text') = some bytes
  /-- A text holds one list of characters. -/
  holds : ∀ s, ∃! cs, Holds s cs
  /-- It is read exactly if these are pairs of digits. -/
  isSome_iff : ∀ {s : String} {cs : List Char}, Holds s cs → ((parse? s).isSome ↔ ArePairs cs)
  /-- The bytes that are read have these digits, in lower case. -/
  ofBytes_parse : ∀ {s : String} {cs : List Char} {bytes : Bytes}, Holds s cs →
  parse? s = some bytes →
    ofBytes bytes = String.ofList (cs.map Char.toLower)
  /-- It is refused exactly if they are no pairs of digits. -/
  eq_none_iff : ∀ {s : String} {cs : List Char}, Holds s cs → (parse? s = none ↔ ¬ ArePairs cs)

/-- **Texts are read by their digits.**

**Proof sketch.** What is written for bytes is read back by `parse?_ofBytes`, and by
`parse?_of_spread` when it is spread or spelled otherwise. `parse?_cases` says of any text that it
is read exactly if its digits are pairs, and as which bytes. -/
theorem reads_by_digits : ReadsByDigits where
  toList_ofBytes bytes := by
    rw [ofBytes, String.toList_ofList, chars, funext byteChars_eq]
  parse_ofBytes := parse?_ofBytes
  parse_respelled {bytes text text' mark} hspread hletters hmark := by
    rw [ofBytes, String.toList_ofList] at hspread
    exact parse?_of_spread hspread hletters hmark
  holds s := ⟨digits s.toList, holds_iff.2 rfl, fun cs h => (holds_iff.1 h).symm⟩
  isSome_iff {s cs} h := by
    obtain ⟨hpairs, bytes, hread, -⟩ | ⟨hnot, hread⟩ := parse?_cases h
    · rw [hread]
      exact iff_of_true rfl hpairs
    · rw [hread]
      exact iff_of_false Bool.false_ne_true hnot
  ofBytes_parse {s cs bytes} h hbytes := by
    obtain ⟨-, read, hread, hsame⟩ | ⟨-, hread⟩ := parse?_cases h
    · rw [hbytes, Option.some.injEq] at hread
      rw [ofBytes, hread, hsame]
    · rw [hread] at hbytes
      cases hbytes
  eq_none_iff {s cs} h := by
    obtain ⟨hpairs, bytes, hread, -⟩ | ⟨hnot, hread⟩ := parse?_cases h
    · rw [hread]
      exact iff_of_false (Option.some_ne_none bytes) (not_not_intro hpairs)
    · exact iff_of_true hread hnot

/-- Separators stand anywhere behind the mark, also within a byte, and nowhere in front of it. -/
example : parse? "0X\u30000:1 fF" = some [0x01, 0xff] ∧ parse? " 0x01ff" = none := by
  decide +kernel

end DebugWire.Hex
