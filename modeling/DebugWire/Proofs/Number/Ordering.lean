import DebugWire.Proofs.Number.Rounding

set_option relaxedAutoImplicit false
set_option autoImplicit false

/-!
# Order and rounding

The order of finite numbers is that of their values. A whole number that is rounded stays on the
same side of any whole number up to the magnitude that binary64 holds exactly.

## Main results

* `DebugWire.Number.lt_eq_decide_value` — the order of finite numbers.
* `DebugWire.Number.two_pow_le_rounded` — rounding keeps a quotient above the power of two under it.
* `DebugWire.Number.whole_add_eq_round` — the sum of whole numbers.
* `DebugWire.Number.lt_whole_round` — the order of whole numbers of which one is rounded.
* `DebugWire.Number.within?_round` — whether a rounded number is within a limit.
-/

namespace DebugWire.Number

/-- The order of finite numbers is that of their values. -/
lemma lt_eq_decide_value {x y : Number} (hx : x.IsFinite) (hy : y.IsFinite) :
    lt x y = decide (x.value < y.value) := by
  have hlt : lt x y = decide (x.numerator * twoPow y.scale < y.numerator * twoPow x.scale) := by
    cases x <;> cases y <;> first | rfl | exact hx.elim | exact hy.elim
  rw [hlt, decide_eq_decide, value, value, div_lt_div_iff₀ (by positivity) (by positivity),
    ← cast_twoPow, ← cast_twoPow]
  norm_cast

/-- A quotient is not rounded below the power of two that is under it.

**Proof sketch.** The quotient is at least `2 ^ 52` units of its last place, and the significand is
a whole number that is half a unit off at most, so it is at least that as well. -/
lemma two_pow_le_rounded {num den : ℕ} (hn : 0 < num) (hd : 0 < den)
    (he : -1022 ≤ binaryExponent num den) :
    (2 : ℚ) ^ binaryExponent num den ≤ rounded num den := by
  have hplace : lastPlace (binaryExponent num den) = binaryExponent num den - 52 :=
    max_eq_left (by omega)
  have hpow : (2 : ℚ) ^ binaryExponent num den = 2 ^ 52 * 2 ^ (binaryExponent num den - 52) := by
    rw [← zpow_natCast, ← zpow_add₀ two_ne_zero]
    congr 1
    omega
  have hquotient : (2 : ℚ) ^ 52 ≤ num / den / 2 ^ lastPlace (binaryExponent num den) := by
    rw [le_div_iff₀ (by positivity), hplace, ← hpow]
    exact (binaryExponent_spec hn hd).1
  -- Being half a unit off at most, the significand cannot be below the whole number `2 ^ 52`.
  have hnear := (abs_le.1 (abs_sub_significand_le num hd)).2
  have hcast : (2 ^ 52 : ℚ) < significand num den + 1 := by linarith
  have hsignificand : 2 ^ 52 ≤ significand num den := Nat.lt_succ_iff.1 (by exact_mod_cast hcast)
  have hle : (2 : ℚ) ^ 52 ≤ significand num den := by exact_mod_cast hsignificand
  rw [rounded, hplace, hpow]
  exact mul_le_mul_of_nonneg_right hle (by positivity)

/-- The limit of what is exact is a power of two. -/
lemma cast_exactLimit : (exactLimit : ℚ) = 2 ^ (53 : ℤ) := by norm_num [exactLimit]

/-- The binary exponent of a natural number that is not below the limit of what is exact. -/
lemma le_binaryExponent {n : ℕ} (h : exactLimit ≤ n) : 53 ≤ binaryExponent n 1 := by
  have hn : 0 < n := lt_of_lt_of_le (by decide) h
  obtain ⟨-, hhigh⟩ := binaryExponent_spec hn Nat.one_pos
  have hle : (2 : ℚ) ^ (53 : ℤ) ≤ (n : ℚ) / (1 : ℕ) := by
    rw [← cast_exactLimit, Nat.cast_one, div_one]
    exact_mod_cast h
  exact Int.lt_add_one_iff.1 ((zpow_lt_zpow_iff_right₀ one_lt_two).1 (hle.trans_lt hhigh))

/-- A natural number that is not below the limit of what is exact is not rounded below it. -/
lemma exactLimit_le_rounded {n : ℕ} (h : exactLimit ≤ n) : (exactLimit : ℚ) ≤ rounded n 1 := by
  have hn : 0 < n := lt_of_lt_of_le (by decide) h
  have hexponent := le_binaryExponent h
  rw [cast_exactLimit]
  exact (zpow_le_zpow_right₀ one_le_two hexponent).trans
    (two_pow_le_rounded hn Nat.one_pos (by omega))

/-- The sum of two whole numbers is their sum, rounded. -/
lemma whole_add_eq_round (a b : ℤ) : whole a + whole b = round (a + b) 0 := by
  show round (a * twoPow 0 + b * twoPow 0) (0 + 0) = round (a + b) 0
  rw [twoPow_zero, Nat.cast_one, mul_one, mul_one, Nat.add_zero]

/-- **A whole number that is rounded** is above another, which is below the limit of what is exact,
exactly if it was so before.

**Proof sketch.** Up to the limit nothing is rounded. A number of a greater magnitude keeps its
sign, and is rounded to a magnitude that is still not below the limit, or to an infinity. -/
theorem lt_whole_round {n : ℤ} (hn : n.natAbs < exactLimit) (z : ℤ) :
    lt (whole n) (round z 0) = decide (n < z) := by
  by_cases hz : z.natAbs ≤ exactLimit
  · rw [round_whole hz, lt_whole]
  have hlimit : (n.natAbs : ℚ) < exactLimit := by exact_mod_cast hn
  have hrounded : (exactLimit : ℚ) ≤ rounded z.natAbs 1 := exactLimit_le_rounded (by omega)
  have habs : -(n.natAbs : ℚ) ≤ n ∧ (n : ℚ) ≤ n.natAbs := by
    rw [Nat.cast_natAbs, Int.cast_abs]
    exact ⟨neg_abs_le _, le_abs_self _⟩
  have hpos : 0 < z.natAbs := by omega
  rw [round, if_neg fun h => hz h.2, twoPow_zero]
  rcases lt_or_ge (rounded z.natAbs 1) ceiling with hlt | hge
  · obtain ⟨hfinite, hvalue⟩ := ofQuotient_of_rounded_lt (decide (z < 0)) hpos Nat.one_pos hlt
    have hwhole : (whole n).IsFinite := trivial
    rw [lt_eq_decide_value hwhole hfinite, hvalue, value_whole, decide_eq_decide, withSign]
    by_cases hneg : z < 0
    · rw [decide_eq_true hneg, if_pos rfl]
      exact iff_of_false (by linarith [habs.1]) (by omega)
    · rw [decide_eq_false hneg, if_neg Bool.false_ne_true]
      exact iff_of_true (by linarith [habs.2]) (by omega)
  · rw [ofQuotient_of_le_rounded _ hpos Nat.one_pos hge]
    by_cases hneg : z < 0
    · rw [decide_eq_true hneg, decide_eq_false (by omega)]
      rfl
    · rw [decide_eq_false hneg, decide_eq_true (by omega)]
      rfl

/-- **Whether a whole number is within a limit** that is below the limit of what is exact does not
depend on whether it is rounded first.

**Proof sketch.** A number that is exact is not rounded. A larger one is out of range, and rounding
keeps it on the same side of -1 and of the limit. -/
theorem within?_round {limit : ℕ} (h : limit < exactLimit) (z : ℤ) :
    (round z 0).within? limit = (whole z).within? limit := by
  by_cases hz : z.natAbs ≤ exactLimit
  · rw [round_whole hz]
  have hout : (whole z).within? limit = none := if_neg (by omega)
  rw [hout]
  cases hx : round z 0 with
  | whole m =>
    have hlow := lt_whole_round (n := -1) (by decide) z
    have hhigh := lt_whole_round (n := limit) h z
    rw [hx, lt_whole, decide_eq_decide] at hlow hhigh
    exact if_neg (by omega)
  | fraction | infinite | nan => rfl

end DebugWire.Number
