import DebugWire.Number.Basic
import Mathlib.Data.Int.Order.Basic
import Mathlib.Data.Nat.Notation
import Mathlib.Tactic.Lemma

set_option relaxedAutoImplicit false
set_option autoImplicit false

/-!
# Numbers that can be counted

Natural numbers among the binary64 numbers: their order, and sums and differences that are exact.

## Main results

* `DebugWire.Number.lt_natCast`, `DebugWire.Number.natCast_lt_fraction` — the order.
* `DebugWire.Number.natCast_add_natCast`, `DebugWire.Number.natCast_sub_natCast` — sums and
  differences.
-/

namespace DebugWire.Number

variable {a b : ℕ}

/-! ## Order -/

/-- The order of numbers that can be counted is that of the natural numbers. -/
lemma lt_natCast (a b : ℕ) : lt (a : Number) (b : Number) = decide (a < b) := by
  rw [lt_whole]
  exact decide_eq_decide.2 Int.ofNat_lt

/-- A natural number is below a fraction if it is not above the whole number under that.

**Proof sketch.** Both sides are multiplied by the denominator, which is a power of two. Since the
numerator is odd, they are never the same then, so the strict order is the weak one. -/
lemma natCast_lt_fraction (a : ℕ) {m : ℤ} {k : ℕ} (odd : m % 2 = 1) :
    lt (a : Number) (fraction m k odd) = decide ((a : ℤ) ≤ m.fdiv (twoPow (k + 1))) := by
  have hpos : (0 : ℤ) < twoPow (k + 1) := by
    exact_mod_cast Nat.pow_pos (n := k + 1) (by decide : 0 < 2)
  have heven : (twoPow (k + 1) : ℤ) = twoPow k * 2 := by exact_mod_cast Nat.pow_succ 2 k
  -- The two sides are never equal, because the numerator is odd.
  have hne : (a : ℤ) * twoPow (k + 1) ≠ m := by
    rw [heven, ← Int.mul_assoc]
    omega
  rw [Int.fdiv_eq_ediv_of_nonneg _ (Int.le_of_lt hpos)]
  simp only [lt, numerator, scale, twoPow_zero]
  refine decide_eq_decide.2 (Iff.trans ?_ (Int.le_ediv_iff_mul_le hpos).symm)
  omega

/-! ## Sums and differences -/

/-- The sum of two numbers that binary64 holds exactly, and so does their sum. -/
lemma natCast_add_natCast (h : a + b ≤ exactLimit) :
    (a : Number) + (b : Number) = ((a + b : ℕ) : Number) := by
  rw [whole_add_whole (by omega)]
  exact congrArg whole (Int.natCast_add a b).symm

/-- The difference of two numbers that binary64 holds exactly. -/
lemma natCast_sub_natCast (hab : a ≤ b) (hb : b ≤ exactLimit) :
    (b : Number) - (a : Number) = ((b - a : ℕ) : Number) := by
  rw [whole_sub_whole (by omega)]
  exact congrArg whole (Int.ofNat_sub hab).symm

end DebugWire.Number
