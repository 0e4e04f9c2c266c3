import DebugWire.Number.Digits
import Mathlib.Algebra.Order.Field.Power
import Mathlib.Data.List.TakeWhile
import Mathlib.Tactic.Lemma
import Mathlib.Tactic.Positivity
import Mathlib.Tactic.SplitIfs

set_option relaxedAutoImplicit false
set_option autoImplicit false

/-!
# Digits of numbers

The digits of a number are at least one, none in front is zero but for the number zero, and there
are as many as the power of ten above the number has zeros. Each digit is the one that its character
stands for.

## Main definitions

* `DebugWire.Digits.IsNumeral` — digits of a positive number, the first of which is not zero.

## Main results

* `DebugWire.Digits.cast_pow_length` — the powers of ten around a number.
* `DebugWire.Digits.isNumeral_ofNat` — the digits of a positive number.
* `DebugWire.Digits.exists_append_replicate` — digits without the zeros at their end.
-/

namespace DebugWire.Digits

/-! ## Digits and characters -/

/-- A number has digits: zero has one as well. -/
lemma ofNat_ne_nil (base n : ℕ) : ofNat base n ≠ [] := by
  rw [ofNat]
  split_ifs
  · exact List.cons_ne_nil _ _
  · exact List.append_ne_nil_of_right_ne_nil _ (List.cons_ne_nil _ _)

/-- Only the number zero has a zero in front, and nothing behind it.

**Proof sketch.** Strong induction. A number with more than one digit has the digits of its tenth in
front; if those began with a zero they would be that alone, so the tenth would be zero. -/
lemma eq_nil_of_ofNat_eq_zero_cons {n : ℕ} {ds : List ℕ} (h : ofNat 10 n = 0 :: ds) : ds = [] := by
  induction n using Nat.strongRecOn generalizing ds with
  | ind n ih =>
    rw [ofNat] at h
    split_ifs at h with hn
    · exact (List.cons.inj h).2.symm
    · have hlt : n / 10 < n := Nat.div_lt_self (by omega) (by omega)
      obtain ⟨front, hf⟩ : ∃ front, ofNat 10 (n / 10) = 0 :: front := by
        cases hd : ofNat 10 (n / 10) with
        | nil => exact absurd hd (ofNat_ne_nil _ _)
        | cons d front =>
          rw [hd] at h
          exact ⟨front, by rw [(List.cons.inj h).1]⟩
      have hv := value_ofNat 10 (n / 10)
      rw [hf, ih _ hlt hf] at hv
      have hz : 0 = n / 10 := hv
      omega

/-- The character of a decimal digit, and the digit that it is. -/
lemma digitChar_of_lt {d : ℕ} (h : d < 10) :
    ('0' ≤ Nat.digitChar d ∧ Nat.digitChar d ≤ '9') ∧ (Nat.digitChar d).toNat - '0'.toNat = d := by
  revert d
  decide

/-- The character of a digit in base sixteen reads back. -/
lemma hexValue?_digitChar {d : ℕ} (h : d < 16) : hexValue? (Nat.digitChar d) = some d := by
  revert d
  decide

/-- The digits of a number as characters are those of the library.

**Proof sketch.** Strong induction on the number. Both functions put the last digit behind those of
the quotient, and stop below the base. -/
lemma text_eq_toDigits {base : ℕ} (hb : 2 ≤ base) (n : ℕ) : text base n = Nat.toDigits base n := by
  induction n using Nat.strongRecOn with
  | ind n ih =>
    rw [text, ofNat]
    split_ifs with hn
    · rw [Nat.toDigits_of_lt_base (by omega)]
      rfl
    · have hpos : 0 < n := by omega
      rw [List.map_append, ← text, ih _ (Nat.div_lt_self hpos hb)]
      exact (Nat.toDigits_of_base_le hb (by omega)).symm

/-! ## The number of digits -/

/-- A number is below the power of ten with as many zeros as it has digits.

**Proof sketch.** Strong induction on the number: one digit more is ten times as much room. -/
lemma lt_pow_length (n : ℕ) : n < 10 ^ (ofNat 10 n).length := by
  induction n using Nat.strongRecOn with
  | ind n ih =>
    rw [ofNat]
    split
    case isTrue h =>
      simp only [List.length_singleton, pow_one]
      omega
    case isFalse h =>
      have hq := ih (n / 10) (by omega)
      rw [List.length_append, List.length_singleton, pow_succ]
      omega

/-- A positive number is at least the power of ten with one zero fewer than it has digits.

**Proof sketch.** Strong induction on the number, as for `lt_pow_length`. The quotient is positive
if there is more than one digit. -/
lemma pow_length_le {n : ℕ} (hn : 0 < n) : 10 ^ (ofNat 10 n).length ≤ 10 * n := by
  induction n using Nat.strongRecOn with
  | ind n ih =>
    rw [ofNat]
    split
    case isTrue h =>
      simp only [List.length_singleton, pow_one]
      omega
    case isFalse h =>
      have hq := ih (n / 10) (by omega) (by omega)
      rw [List.length_append, List.length_singleton, pow_succ]
      omega

/-- The number of digits is the exponent of the next power of ten.

**Proof sketch.** The powers of ten around the number, one from its digits and one from `k`, leave
only one choice for the exponent. -/
lemma length_eq_of_le_of_lt {n k : ℕ} (hlow : 10 ^ k ≤ 10 * n) (hhigh : n < 10 ^ k) :
    (ofNat 10 n).length = k := by
  have hn : 0 < n := by
    have : 0 < 10 ^ k := by positivity
    omega
  have h1 : 10 ^ (ofNat 10 n).length < 10 ^ (k + 1) := by
    have := pow_length_le hn
    rw [pow_succ]
    omega
  have h2 : 10 ^ k < 10 ^ ((ofNat 10 n).length + 1) := by
    have := lt_pow_length n
    rw [pow_succ]
    omega
  have h1' := (Nat.pow_lt_pow_iff_right (by decide : 1 < 10)).1 h1
  have h2' := (Nat.pow_lt_pow_iff_right (by decide : 1 < 10)).1 h2
  omega

/-- Multiplying by a power of ten adds as many digits. -/
lemma length_mul_pow {n : ℕ} (hn : 0 < n) (j : ℕ) :
    (ofNat 10 (n * 10 ^ j)).length = (ofNat 10 n).length + j := by
  have hj : 0 < 10 ^ j := by positivity
  apply length_eq_of_le_of_lt
  · rw [pow_add, ← Nat.mul_assoc]
    exact Nat.mul_le_mul_right _ (pow_length_le hn)
  · rw [pow_add]
    exact (Nat.mul_lt_mul_right hj).2 (lt_pow_length n)

/-- The two powers of ten around a positive number. -/
lemma cast_pow_length {n : ℕ} (hn : 0 < n) :
    (10 : ℚ) ^ ((ofNat 10 n).length - 1 : ℤ) ≤ n ∧ (n : ℚ) < 10 ^ ((ofNat 10 n).length : ℤ) := by
  constructor
  · rw [zpow_sub_one₀ (by norm_num), zpow_natCast, ← div_eq_mul_inv, div_le_iff₀ (by norm_num),
      mul_comm]
    exact_mod_cast pow_length_le hn
  · rw [zpow_natCast]
    exact_mod_cast lt_pow_length n

/-! ## Zeros -/

/-- Digits of a positive number: the first is not zero. -/
structure IsNumeral (ds : List ℕ) : Prop where
  /-- There are digits, and the first is not zero. -/
  head : ∃ d rest, ds = d :: rest ∧ d ≠ 0
  /-- They are decimal digits. -/
  lt : ∀ d ∈ ds, d < 10

/-- The digits of a positive number do not begin with a zero.

**Proof sketch.** If the first digit were a zero then the others would be none, and the value of the
digits would be zero. -/
lemma isNumeral_ofNat {n : ℕ} (hn : 0 < n) : IsNumeral (ofNat 10 n) := by
  refine ⟨?_, fun d hd => lt_of_mem_ofNat (by decide) hd⟩
  cases hd : ofNat 10 n with
  | nil => exact absurd hd (ofNat_ne_nil _ _)
  | cons d rest =>
    refine ⟨d, rest, rfl, ?_⟩
    rintro rfl
    have hv := value_ofNat 10 n
    rw [hd, eq_nil_of_ofNat_eq_zero_cons hd] at hv
    exact hn.ne hv

/-- Zeros behind digits multiply by a power of the base. -/
lemma value_append_replicate (base : ℕ) (ds : List ℕ) (j : ℕ) :
    value base (ds ++ List.replicate j 0) = value base ds * base ^ j := by
  induction j with
  | zero => rw [List.replicate_zero, List.append_nil, pow_zero, Nat.mul_one]
  | succ j ih =>
    rw [List.replicate_succ', ← List.append_assoc, value_append_singleton, ih, pow_succ,
      Nat.add_zero, Nat.mul_assoc]

/-- Zeros in front of digits do not matter for their value. -/
lemma value_replicate_append (base j : ℕ) (ds : List ℕ) :
    value base (List.replicate j 0 ++ ds) = value base ds := by
  have hzero : (List.replicate j 0).foldl (fun v d => v * base + d) 0 = 0 := by
    induction j with
    | zero => rfl
    | succ j ih => rw [List.replicate_succ', List.foldl_append, ih]; simp
  rw [value, List.foldl_append, hzero, value]

/-- Digits are those that are left without the zeros at the end, and these zeros. -/
lemma exists_append_replicate (ds : List ℕ) :
    ∃ j, ds = (ds.reverse.dropWhile (· == 0)).reverse ++ List.replicate j 0 := by
  refine ⟨(ds.reverse.takeWhile (· == 0)).length, ?_⟩
  have hzeros : (ds.reverse.takeWhile (· == 0)).reverse =
      List.replicate (ds.reverse.takeWhile (· == 0)).length 0 := by
    rw [← List.reverse_replicate, List.reverse_inj, List.eq_replicate_iff]
    refine ⟨rfl, fun d hd => ?_⟩
    have hd' := List.mem_takeWhile_imp hd
    exact beq_iff_eq.1 hd'
  rw [← hzeros, ← List.reverse_append, List.takeWhile_append_dropWhile, List.reverse_reverse]

/-- Without the zeros at the end a numeral is a numeral.

**Proof sketch.** What is kept still begins with the first digit, because that is not a zero and
only zeros are taken away. -/
lemma IsNumeral.of_append_replicate {ds kept : List ℕ} {j : ℕ} (h : IsNumeral ds)
    (hds : ds = kept ++ List.replicate j 0) : IsNumeral kept := by
  obtain ⟨⟨d, rest, hd, hne⟩, hlt⟩ := h
  refine ⟨?_, fun d hd => hlt d (hds ▸ List.mem_append_left _ hd)⟩
  cases kept with
  | nil =>
    rw [List.nil_append, hd] at hds
    have hmem : d ∈ List.replicate j 0 := hds ▸ List.mem_cons_self
    exact absurd (List.eq_of_mem_replicate hmem) hne
  | cons e kept =>
    rw [hd, List.cons_append] at hds
    exact ⟨e, kept, rfl, (List.cons.inj hds).1 ▸ hne⟩

end DebugWire.Digits
