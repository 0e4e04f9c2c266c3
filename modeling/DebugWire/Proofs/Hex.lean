import DebugWire.Hex
import DebugWire.Proofs.Number.Digits

set_option relaxedAutoImplicit false
set_option autoImplicit false

/-!
# Hex text read back

The digits of bytes read back as these bytes. They begin with no `0x` that would be dropped, since
their letters go up to `f`, and none of them is taken for a separator.

## Main results

* `DebugWire.Hex.parse?_ofBytes` — the digits of bytes, read.
* `DebugWire.Hex.ofBytes_inj` — different bytes have different digits.
-/

namespace DebugWire.Hex

/-- The character of a digit separates nothing and is not the letter of a mark. -/
lemma digitChar_plain {d : ℕ} (h : d < 16) :
    isSeparator (Nat.digitChar d) = false ∧ Nat.digitChar d ≠ 'x' ∧ Nat.digitChar d ≠ 'X' := by
  revert d
  decide

/-- The digits of a byte are below sixteen, so each character that is written for bytes is one of
the sixteen lower-case digits. -/
lemma exists_of_mem_chars {bytes : Bytes} {c : Char} (h : c ∈ chars bytes) :
    ∃ d < 16, c = Nat.digitChar d := by
  obtain ⟨b, -, hc⟩ := List.mem_flatMap.1 h
  have hb := b.toNat_lt
  rw [byteChars, List.mem_pair] at hc
  rcases hc with rfl | rfl
  · exact ⟨_, by omega, rfl⟩
  · exact ⟨_, by omega, rfl⟩

/-- A text without the letter of a mark has none in front. -/
lemma dropMark_eq {cs : List Char} (h : ∀ c ∈ cs, c ≠ 'x' ∧ c ≠ 'X') : dropMark cs = cs := by
  unfold dropMark
  split
  · exact absurd rfl (h 'x' (List.mem_cons_of_mem _ List.mem_cons_self)).1
  · exact absurd rfl (h 'X' (List.mem_cons_of_mem _ List.mem_cons_self)).2
  · rfl

/-- All characters of bytes are digits, so nothing is left out when they are read back. -/
lemma digits_chars (bytes : Bytes) : digits (chars bytes) = chars bytes := by
  have hplain : ∀ c ∈ chars bytes, isSeparator c = false ∧ c ≠ 'x' ∧ c ≠ 'X' := by
    intro c hc
    obtain ⟨d, hd, rfl⟩ := exists_of_mem_chars hc
    exact digitChar_plain hd
  rw [digits, dropMark_eq fun c hc => (hplain c hc).2, List.filter_eq_self]
  exact fun c hc => by rw [(hplain c hc).1]; rfl

/-- The digits of bytes give these, behind those that are read already.

**Proof sketch.** Induction on the bytes. The two digits of a byte are read as its high and its low
half, which make up the byte. -/
lemma pairsFrom?_chars (seen bytes : Bytes) :
    pairsFrom? seen (chars bytes) = some (seen.reverse ++ bytes) := by
  induction bytes generalizing seen with
  | nil => exact congrArg some (List.append_nil _).symm
  | cons b bytes ih =>
    have hb := b.toNat_lt
    have hread : b.toNat / 16 * 16 + b.toNat % 16 = b.toNat := by omega
    rw [chars, List.flatMap_cons, ← chars, byteChars, List.cons_append, List.cons_append,
      List.nil_append, pairsFrom?,
      Digits.hexValue?_digitChar (by omega), Digits.hexValue?_digitChar (by omega)]
    dsimp only
    rw [hread, UInt8.ofNat_toNat, ih, List.reverse_cons, List.append_assoc, List.singleton_append]

/-- **The digits of bytes** read back as these bytes. -/
theorem parse?_ofBytes (bytes : Bytes) : parse? (ofBytes bytes) = some bytes := by
  rw [parse?, ofBytes, String.toList_ofList, digits_chars, pairsFrom?_chars, List.reverse_nil,
    List.nil_append]

/-- Different bytes have different digits, since each text of digits is read back as its bytes. -/
theorem ofBytes_inj {bytes bytes' : Bytes} : ofBytes bytes = ofBytes bytes' ↔ bytes = bytes' := by
  refine ⟨fun h => ?_, congrArg ofBytes⟩
  have hread := parse?_ofBytes bytes
  rw [h, parse?_ofBytes] at hread
  exact (Option.some.inj hread).symm

end DebugWire.Hex
