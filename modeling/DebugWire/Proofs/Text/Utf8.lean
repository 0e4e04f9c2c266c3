import DebugWire.Text.Utf8
import Mathlib.Data.Nat.Notation
import Mathlib.Tactic.Lemma
import Mathlib.Tactic.SplitIfs

set_option relaxedAutoImplicit false
set_option autoImplicit false

/-!
# Decoding what was encoded

The decoder of `DebugWire.Utf8` undoes the encoder, whatever bytes follow: the bytes of a character
are read as that character, and reading goes on right behind them.

## Main definitions

* `DebugWire.Utf8.Valid` — the bytes of some text.

## Main results

* `DebugWire.Utf8.decodeChars_encodeChar_append` — the bytes of one character in front of any
  others.
* `DebugWire.Utf8.decode_encode_append` — the bytes of a text in front of any others.
* `DebugWire.Utf8.decode_encode` — the bytes of a text alone.
-/

namespace DebugWire.Utf8

/-! ## Sequences of each length -/

/-- The number of a byte that was made of a number below 256. -/
private lemma toNat_ofNat {n : ℕ} (hn : n < 256) : (UInt8.ofNat n).toNat = n := by
  rw [UInt8.toNat_ofNat']
  exact Nat.mod_eq_of_lt hn

/-- Bytes compare as the numbers that they were made of. -/
private lemma ofNat_lt_ofNat {m n : ℕ} (h : m < n) (hn : n < 256) :
    UInt8.ofNat m < UInt8.ofNat n := by
  rw [UInt8.lt_iff_toNat_lt, toNat_ofNat (Nat.lt_trans h hn), toNat_ofNat hn]
  exact h

/-- Bytes compare as the numbers that they were made of. -/
private lemma ofNat_le_ofNat {m n : ℕ} (h : m ≤ n) (hn : n < 256) :
    UInt8.ofNat m ≤ UInt8.ofNat n := by
  rw [UInt8.le_iff_toNat_le, toNat_ofNat (Nat.lt_of_le_of_lt h hn), toNat_ofNat hn]
  exact h

/-- Bytes compare as the numbers that they were made of. -/
private lemma not_ofNat_lt_ofNat {m n : ℕ} (h : n ≤ m) (hm : m < 256) :
    ¬ UInt8.ofNat m < UInt8.ofNat n := by
  rw [UInt8.lt_iff_toNat_lt, toNat_ofNat hm, toNat_ofNat (Nat.lt_of_le_of_lt h hm)]
  exact Nat.not_lt.2 h

/-- The numbers from `0xc2` to `0xf4` are those of lead bytes. -/
private lemma lead_ofNat {n : ℕ} (h : 0xc2 ≤ n) (h' : n ≤ 0xf4) :
    0xc2 ≤ UInt8.ofNat n ∧ UInt8.ofNat n ≤ 0xf4 :=
  ⟨ofNat_le_ofNat h (by omega), ofNat_le_ofNat h' (by decide)⟩

/-- A byte `0x80 + b` with six low bits `b` is a continuation byte. -/
private lemma isContinuation_ofNat {b : ℕ} (hb : b < 64) :
    isContinuation (UInt8.ofNat (b + 0x80)) = true := by
  simp only [isContinuation, UInt8.le_iff_toNat_le, toNat_ofNat (show b + 0x80 < 256 by omega),
    UInt8.reduceToNat, Bool.and_eq_true, decide_eq_true_eq]
  omega

/-- The low bits of a continuation byte are the bits that it was made of. -/
private lemma low6_ofNat {b : ℕ} (hb : b < 64) : low6 (UInt8.ofNat (b + 0x80)) = b := by
  rw [low6, toNat_ofNat (by omega)]
  omega

/-- A byte below `0x80` is read as the character of its number. -/
private lemma decodeChars_one {a : ℕ} (ha : a < 0x80) (bytes : Bytes) :
    decodeChars (UInt8.ofNat a :: bytes) = Char.ofNat a :: decodeChars bytes := by
  have hn := toNat_ofNat (show a < 256 by omega)
  have h0 : UInt8.ofNat a < 0x80 := ofNat_lt_ofNat ha (by decide)
  rw [decodeChars.eq_def]
  simp only [if_pos h0, hn]

/-- A lead byte of two and a continuation byte are read as one character.

**Proof sketch.** The first byte is in the range of lead bytes of two and any continuation byte may
follow it, so the code point is put together from five bits and six. -/
private lemma decodeChars_two {a b : ℕ} (ha : 2 ≤ a) (ha' : a < 32) (hb : b < 64) (bytes : Bytes) :
    decodeChars (UInt8.ofNat (a + 0xc0) :: UInt8.ofNat (b + 0x80) :: bytes) =
      Char.ofNat (a * 64 + b) :: decodeChars bytes := by
  have hn := toNat_ofNat (show a + 0xc0 < 256 by omega)
  have h0 : ¬ UInt8.ofNat (a + 0xc0) < 0x80 := not_ofNat_lt_ofNat (n := 0x80) (by omega) (by omega)
  have h1 := lead_ofNat (show 0xc2 ≤ a + 0xc0 by omega) (by omega)
  have h2 : UInt8.ofNat (a + 0xc0) < 0xe0 := ofNat_lt_ofNat (n := 0xe0) (by omega) (by decide)
  have hs : isSecond (UInt8.ofNat (a + 0xc0)) (UInt8.ofNat (b + 0x80)) = true := by
    simp only [isSecond, ← UInt8.toNat_inj, hn, UInt8.reduceToNat]
    rw [if_neg (by omega), if_neg (by omega), if_neg (by omega), if_neg (by omega)]
    exact isContinuation_ofNat hb
  rw [decodeChars.eq_def]
  simp only [if_neg h0, if_pos h1, hs, Bool.not_true, Bool.false_eq_true, if_false, if_pos h2, hn,
    low6_ofNat hb]
  rw [show (a + 0xc0) % 32 = a by omega]

/-- A lead byte of three and two continuation bytes are read as one character, unless the sequence
is longer than it needs to be or stands for a surrogate.

**Proof sketch.** The first byte is a lead byte of three. The two assumptions say that its second
byte is in the range that `isSecond` asks for, so the code point is put together from four bits and
twice six. -/
private lemma decodeChars_three {a b c : ℕ} (ha : a < 16) (hb : b < 64) (hc : c < 64)
    (short : a = 0 → 32 ≤ b) (scalar : a = 13 → b < 32) (bytes : Bytes) :
    decodeChars (UInt8.ofNat (a + 0xe0) :: UInt8.ofNat (b + 0x80) :: UInt8.ofNat (c + 0x80) ::
      bytes) = Char.ofNat (a * 4096 + b * 64 + c) :: decodeChars bytes := by
  have hn := toNat_ofNat (show a + 0xe0 < 256 by omega)
  have hm := toNat_ofNat (show b + 0x80 < 256 by omega)
  have h0 : ¬ UInt8.ofNat (a + 0xe0) < 0x80 := not_ofNat_lt_ofNat (n := 0x80) (by omega) (by omega)
  have h1 := lead_ofNat (show 0xc2 ≤ a + 0xe0 by omega) (by omega)
  have h2 : ¬ UInt8.ofNat (a + 0xe0) < 0xe0 := not_ofNat_lt_ofNat (n := 0xe0) (by omega) (by omega)
  have h3 : UInt8.ofNat (a + 0xe0) < 0xf0 := ofNat_lt_ofNat (n := 0xf0) (by omega) (by decide)
  have hs : isSecond (UInt8.ofNat (a + 0xe0)) (UInt8.ofNat (b + 0x80)) = true := by
    simp only [isSecond, isContinuation, ← UInt8.toNat_inj, UInt8.le_iff_toNat_le, hn, hm,
      UInt8.reduceToNat]
    split_ifs <;> simp only [Bool.and_eq_true, decide_eq_true_eq] <;> omega
  rw [decodeChars.eq_def]
  simp only [if_neg h0, if_pos h1, hs, isContinuation_ofNat hc, Bool.not_true, Bool.false_eq_true,
    if_false, if_neg h2, if_pos h3, hn, low6_ofNat hb, low6_ofNat hc]
  rw [show (a + 0xe0) % 16 = a by omega]

/-- A lead byte of four and three continuation bytes are read as one character, unless the sequence
is longer than it needs to be or stands for nothing.

**Proof sketch.** The first byte is a lead byte of four. The two assumptions say that its second
byte is in the range that `isSecond` asks for, so the code point is put together from three bits and
three times six. -/
private lemma decodeChars_four {a b c d : ℕ} (ha : a < 5) (hb : b < 64) (hc : c < 64) (hd : d < 64)
    (short : a = 0 → 16 ≤ b) (scalar : a = 4 → b < 16) (bytes : Bytes) :
    decodeChars (UInt8.ofNat (a + 0xf0) :: UInt8.ofNat (b + 0x80) :: UInt8.ofNat (c + 0x80)
        :: UInt8.ofNat (d + 0x80) :: bytes) =
      Char.ofNat (a * 262144 + b * 4096 + c * 64 + d) :: decodeChars bytes := by
  have hn := toNat_ofNat (show a + 0xf0 < 256 by omega)
  have hm := toNat_ofNat (show b + 0x80 < 256 by omega)
  have h0 : ¬ UInt8.ofNat (a + 0xf0) < 0x80 := not_ofNat_lt_ofNat (n := 0x80) (by omega) (by omega)
  have h1 := lead_ofNat (show 0xc2 ≤ a + 0xf0 by omega) (by omega)
  have h2 : ¬ UInt8.ofNat (a + 0xf0) < 0xe0 := not_ofNat_lt_ofNat (n := 0xe0) (by omega) (by omega)
  have h3 : ¬ UInt8.ofNat (a + 0xf0) < 0xf0 := not_ofNat_lt_ofNat (n := 0xf0) (by omega) (by omega)
  have hs : isSecond (UInt8.ofNat (a + 0xf0)) (UInt8.ofNat (b + 0x80)) = true := by
    simp only [isSecond, isContinuation, ← UInt8.toNat_inj, UInt8.le_iff_toNat_le, hn, hm,
      UInt8.reduceToNat]
    split_ifs <;> simp only [Bool.and_eq_true, decide_eq_true_eq] <;> omega
  rw [decodeChars.eq_def]
  simp only [if_neg h0, if_pos h1, hs, isContinuation_ofNat hc, isContinuation_ofNat hd,
    Bool.not_true,
    Bool.false_eq_true, if_false, if_neg h2, if_neg h3, hn, low6_ofNat hb, low6_ofNat hc,
      low6_ofNat hd]
  rw [show (a + 0xf0) % 8 = a by omega]

/-! ## Texts -/

/-- **One character**: the bytes of a character in front of any others are read as that character.

**Proof sketch.** The encoder picks the length by the size of the number `v` of the character. In
each case the bytes hold the digits of `v` to base 64, so the sequence is as short as it can be;
that `v` is no surrogate and at most `0x10ffff` are the bounds on the second byte. -/
lemma decodeChars_encodeChar_append (c : Char) (bytes : Bytes) :
    decodeChars (String.utf8EncodeChar c ++ bytes) = c :: decodeChars bytes := by
  have hv : c.val.toNat < 0xd800 ∨ 0xdfff < c.val.toNat ∧ c.val.toNat < 0x110000 := c.valid
  have back : Char.ofNat c.val.toNat = c := Char.ofNat_toNat c
  unfold String.utf8EncodeChar
  generalize c.val.toNat = v at hv back ⊢
  dsimp only
  split_ifs with h1 h2 h3
  · rw [List.cons_append, List.nil_append, decodeChars_one (by omega), back]
  · simp only [List.cons_append, List.nil_append]
    rw [Nat.mod_eq_of_lt (show v / 64 < 0x20 by omega),
      decodeChars_two (by omega) (by omega) (by omega), show v / 64 * 64 + v % 0x40 = v by
        omega, back]
  · simp only [List.cons_append, List.nil_append]
    rw [Nat.mod_eq_of_lt (show v / 4096 < 0x10 by omega),
      decodeChars_three (by omega) (by omega) (by omega) (by omega) (by omega),
      show v / 4096 * 4096 + v / 64 % 0x40 * 64 + v % 0x40 = v by omega, back]
  · simp only [List.cons_append, List.nil_append]
    rw [Nat.mod_eq_of_lt (show v / 262144 < 0x08 by omega),
      decodeChars_four (by omega) (by omega) (by omega) (by omega) (by omega) (by omega),
      show v / 262144 * 262144 + v / 4096 % 0x40 * 4096 + v / 64 % 0x40 * 64 + v % 0x40 = v by
        omega, back]

/-- The bytes of characters in front of any others are read as those characters. -/
lemma decodeChars_flatMap_append (cs : List Char) (bytes : Bytes) :
    decodeChars (cs.flatMap String.utf8EncodeChar ++ bytes) = cs ++ decodeChars bytes := by
  induction cs with
  | nil => rfl
  | cons c cs ih =>
    rw [List.flatMap_cons, List.append_assoc, decodeChars_encodeChar_append, ih, List.cons_append]

/-- The bytes of a text in front of any others are read as that text. -/
lemma decode_encode_append (s : String) (bytes : Bytes) :
    decode (encode s ++ bytes) = s ++ decode bytes := by
  rw [decode, encode, decodeChars_flatMap_append, String.ofList_append,
    String.ofList_toList, decode]

/-- The bytes of a text are read as that text. -/
@[simp]
lemma decode_encode (s : String) : decode (encode s) = s := by
  have h := decode_encode_append s []
  rwa [List.append_nil, show decode [] = "" from rfl, String.append_empty] at h

/-! ## Bytes of texts -/

/-- Bytes are *valid* if they are the bytes of a text. -/
def Valid (bytes : Bytes) : Prop := ∃ s, encode s = bytes

/-- Valid bytes are those that come back when they are read as a text and written again. -/
lemma valid_iff {bytes : Bytes} : Valid bytes ↔ encode (decode bytes) = bytes := by
  constructor
  · rintro ⟨s, rfl⟩
    rw [decode_encode]
  · intro h
    exact ⟨decode bytes, h⟩

end DebugWire.Utf8
