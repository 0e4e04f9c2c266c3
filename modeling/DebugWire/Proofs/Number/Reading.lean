import DebugWire.Proofs.Number.Digits
import Mathlib.Data.List.Forall2
import Mathlib.Data.Nat.Digits.Defs
import Mathlib.Tactic.Lemma
import Mathlib.Tactic.SplitIfs

set_option relaxedAutoImplicit false
set_option autoImplicit false

/-!
# Numbers read from digits

A text of one or more digits is read as the number that these denote, however many there are and
whether zeros stand in front or not. Any other text is read as none.

## Main definitions

* `DebugWire.Digits.IsDigit` — the characters of a digit.
* `DebugWire.Digits.Denotes` — a text of digits and its number.

## Main results

* `DebugWire.Digits.readDecimal?_eq_some_iff`, `DebugWire.Digits.readHex?_eq_some_iff` — what is
  read.
* `DebugWire.Digits.denotes_ofNat` — the digits of a number, with zeros in front.
-/

namespace DebugWire.Digits

/-! ## Digits -/

/-- A character *is a digit* in a base: it is that of the digit, in either letter case. -/
def IsDigit (base : ℕ) (c : Char) (d : ℕ) : Prop :=
  d < base ∧ (c = Nat.digitChar d ∨ c = (Nat.digitChar d).toUpper)

/-- A text *denotes* a number in a base: it has one or more digits, the most significant first. -/
def Denotes (base : ℕ) (cs : List Char) (n : ℕ) : Prop :=
  cs ≠ [] ∧ ∃ ds, List.Forall₂ (IsDigit base) cs ds ∧ n = Nat.ofDigits base ds.reverse

variable {c : Char} {cs : List Char} {d n base : ℕ}

/-- A character is the one of its number, so it is known by that. -/
lemma eq_of_toNat {c' : Char} (h : c' = Char.ofNat n) (hc : c.toNat = n) : c = c' := by
  rw [h, ← hc, Char.ofNat_toNat]

/-- The decimal digit that is read from a character is the one that it is.

**Proof sketch.** From left to right, the character is given by its code, which is that of a digit.
From right to left there are ten digits to look at. -/
lemma decimalValue?_eq_some_iff : decimalValue? c = some d ↔ IsDigit 10 c d := by
  have hall : ∀ d < 10, Nat.digitChar d = Char.ofNat (48 + d) ∧
      decimalValue? (Nat.digitChar d) = some d ∧
      (Nat.digitChar d).toUpper = Nat.digitChar d := by
    decide
  constructor
  · intro h
    rw [decimalValue?] at h
    split_ifs at h with hc
    have hlow : 48 ≤ c.toNat := hc.1
    have hhigh : c.toNat ≤ 57 := hc.2
    have hval : c.toNat - 48 = d := Option.some.inj h
    exact ⟨by omega, .inl (eq_of_toNat (hall d (by omega)).1 (by omega))⟩
  · rintro ⟨hd, hc⟩
    rw [(hall d hd).2.2, or_self] at hc
    rw [hc]
    exact (hall d hd).2.1

/-- The digit in base sixteen that is read from a character is the one that it is, in either letter
case.

**Proof sketch.** The three ranges of codes are those of the digits, the small letters and the
capitals. From right to left there are sixteen digits to look at, each in both letter cases. -/
lemma hexValue?_eq_some_iff : hexValue? c = some d ↔ IsDigit 16 c d := by
  have hdigit : ∀ d < 10, Nat.digitChar d = Char.ofNat (48 + d) := by decide
  have hletter : ∀ d < 16, 10 ≤ d → Nat.digitChar d = Char.ofNat (87 + d) ∧
      (Nat.digitChar d).toUpper = Char.ofNat (55 + d) := by decide
  have hback : ∀ d < 16, hexValue? (Nat.digitChar d) = some d ∧
      hexValue? (Nat.digitChar d).toUpper = some d := by
    decide
  constructor
  · intro h
    rw [hexValue?] at h
    split_ifs at h with hc hc hc
    · have hlow : 48 ≤ c.toNat := hc.1
      have hhigh : c.toNat ≤ 57 := hc.2
      have hval : c.toNat - 48 = d := Option.some.inj h
      exact ⟨by omega, .inl (eq_of_toNat (hdigit d (by omega)) (by omega))⟩
    · have hlow : 97 ≤ c.toNat := hc.1
      have hhigh : c.toNat ≤ 102 := hc.2
      have hval : c.toNat - 97 + 10 = d := Option.some.inj h
      exact ⟨by omega, .inl (eq_of_toNat (hletter d (by omega) (by omega)).1 (by omega))⟩
    · have hlow : 65 ≤ c.toNat := hc.1
      have hhigh : c.toNat ≤ 70 := hc.2
      have hval : c.toNat - 65 + 10 = d := Option.some.inj h
      exact ⟨by omega, .inr (eq_of_toNat (hletter d (by omega) (by omega)).2 (by omega))⟩
  · rintro ⟨hd, rfl | rfl⟩
    · exact (hback d hd).1
    · exact (hback d hd).2

/-! ## Numbers -/

/-- The number that digits stand for, by the powers of the base. -/
lemma value_eq_ofDigits (base : ℕ) (ds : List ℕ) :
    value base ds = Nat.ofDigits base ds.reverse := by
  rw [value, Nat.ofDigits_eq_foldr, List.foldr_reverse]
  simp only [Nat.cast_id, Nat.add_comm, Nat.mul_comm]

/-- Characters are read one by one, and all of them or none are. -/
lemma mapM_eq_some_iff {read : Char → Option ℕ} {P : Char → ℕ → Prop}
    (h : ∀ c d, read c = some d ↔ P c d)
    {ds : List ℕ} : cs.mapM read = some ds ↔ List.Forall₂ P cs ds := by
  induction cs generalizing ds with
  | nil => rw [List.forall₂_nil_left_iff, List.mapM_nil, Option.pure_def, Option.some.injEq,
      eq_comm]
  | cons c cs ih =>
    simp only [List.mapM_cons, Option.bind_eq_bind, Option.bind_eq_some_iff, Option.pure_def,
      Option.some.injEq, h, ih, List.forall₂_cons_left_iff]
    tauto

/-- Digits that are read one by one are read as what they denote. -/
lemma map_value_eq_some_iff {read : Char → Option ℕ}
    (h : ∀ c d, read c = some d ↔ IsDigit base c d) :
    (if cs.isEmpty then none else (cs.mapM read).map (value base)) = some n ↔
      Denotes base cs n := by
  rw [Option.ite_none_left_eq_some, List.isEmpty_iff, Option.map_eq_some_iff]
  simp only [mapM_eq_some_iff h, value_eq_ofDigits, Denotes, eq_comm (a := n)]

/-- **Decimal digits** are read as what they denote, and no other text is read. -/
theorem readDecimal?_eq_some_iff : readDecimal? cs = some n ↔ Denotes 10 cs n :=
  map_value_eq_some_iff fun _ _ => decimalValue?_eq_some_iff

/-- **Digits in base sixteen** are read as what they denote. -/
theorem readHex?_eq_some_iff : readHex? cs = some n ↔ Denotes 16 cs n :=
  map_value_eq_some_iff fun _ _ => hexValue?_eq_some_iff

/-- The digits of a number, each written as a character of its own and with zeros in front, denote
this number.

**Proof sketch.** Each digit is below the base, the zeros in front included, so its character is a
digit. Zeros in front do not change the value. -/
theorem denotes_ofNat {f : ℕ → Char} (hbase : 2 ≤ base) (hf : ∀ d < base, IsDigit base (f d) d)
    (zeros n : ℕ) :
    Denotes base ((List.replicate zeros 0 ++ ofNat base n).map f) n := by
  have hlt : ∀ d ∈ List.replicate zeros 0 ++ ofNat base n, d < base := by
    refine List.forall_mem_append.2 ⟨fun d hd => ?_, fun d hd => lt_of_mem_ofNat hbase hd⟩
    rw [List.eq_of_mem_replicate hd]
    exact Nat.lt_of_lt_of_le Nat.zero_lt_two hbase
  refine ⟨fun h => ofNat_ne_nil base n (List.append_eq_nil_iff.1 (List.map_eq_nil_iff.1 h)).2,
    List.replicate zeros 0 ++ ofNat base n, ?_, ?_⟩
  · exact List.forall₂_map_left_iff.2 (List.forall₂_same.2 fun d hd => hf d (hlt d hd))
  · rw [List.reverse_append, List.reverse_replicate, Nat.ofDigits_append_replicate_zero,
      ← value_eq_ofDigits, value_ofNat]

end DebugWire.Digits
