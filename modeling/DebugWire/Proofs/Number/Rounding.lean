import DebugWire.Number.Basic
import Mathlib.Algebra.Order.Field.Power
import Mathlib.Tactic.FieldSimp
import Mathlib.Tactic.Lemma
import Mathlib.Tactic.Linarith
import Mathlib.Tactic.Positivity
import Mathlib.Tactic.Ring

set_option relaxedAutoImplicit false
set_option autoImplicit false

/-!
# Rounding to binary64

What `DebugWire.Number.ofQuotient` makes of a quotient depends on the value of the quotient alone,
and is the only binary64 number that is close to it: one whose distance is less than `2 ^ -54` of
itself. A whole step of seventeen decimal digits is about twice as long, so the nearer end of the
step around a number is that close.

## Main definitions

* `DebugWire.Number.value` — the rational number that a number stands for.
* `DebugWire.Number.IsFinite` — a number with a finite value.
* `DebugWire.Number.OnGrid` — a magnitude with a significand of fifty-three bits.
* `DebugWire.Number.IsBinary64` — a number that binary64 has.

## Main results

* `DebugWire.Number.eq_of_value_eq` — a finite number is told by its value.
* `DebugWire.Number.ofQuotient_congr` — equal quotients are rounded to the same number.
* `DebugWire.Number.ofQuotient_of_near` — a quotient close to a binary64 number is rounded to it.
* `DebugWire.Number.isBinary64_ofQuotient` — what a quotient is rounded to is a binary64 number.
-/

namespace DebugWire.Number

/-! ## Values -/

/-- The rational number that a number stands for; `0` where there is no finite value. -/
def value (x : Number) : ℚ := x.numerator / 2 ^ x.scale

/-- Whether a number has a finite value. -/
def IsFinite : Number → Prop
  | whole _ => True
  | fraction _ _ _ => True
  | infinite _ => False
  | nan => False

/-- The value of a whole number is the integer that it is made of. -/
@[simp]
lemma value_whole (n : ℤ) : (whole n).value = n := by simp [value, numerator, scale]

/-- The value of a fraction is its numerator over its power of two. -/
@[simp]
lemma value_fraction (m : ℤ) (k : ℕ) (odd : m % 2 = 1) :
    (fraction m k odd).value = m / 2 ^ (k + 1) := rfl

/-- A whole number is no proper fraction, whose numerator is odd. -/
lemma value_whole_ne_value_fraction (n m : ℤ) (k : ℕ) (odd : m % 2 = 1) :
    (whole n).value ≠ (fraction m k odd).value := by
  intro h
  rw [value_whole, value_fraction, eq_div_iff (by positivity)] at h
  have hz : n * 2 ^ (k + 1) = m := by exact_mod_cast h
  rw [pow_succ, ← mul_assoc] at hz
  omega

/-- A fraction in lowest terms has no shorter form.

**Proof sketch.** If the exponent were greater then the odd numerator would be the other one times a
power of two, and so even. -/
lemma le_of_value_fraction_eq {m m' : ℤ} {k k' : ℕ} {odd : m % 2 = 1} {odd' : m' % 2 = 1}
    (h : (fraction m k odd).value = (fraction m' k' odd').value) : k ≤ k' := by
  by_contra hlt
  obtain ⟨j, rfl⟩ := Nat.exists_eq_add_of_lt (Nat.lt_of_not_le hlt)
  rw [value_fraction, value_fraction, div_eq_div_iff (by positivity) (by positivity)] at h
  have hz : m * 2 ^ (k' + 1) = m' * 2 ^ (k' + j + 1 + 1) := by exact_mod_cast h
  have hm : m = m' * 2 ^ j * 2 := by
    have hp : (2 : ℤ) ^ (k' + 1) ≠ 0 := by positivity
    apply mul_right_cancel₀ hp
    rw [hz]
    ring
  omega

/-- **A finite number is told by its value.**

**Proof sketch.** A whole number is no fraction with an odd numerator. Two fractions with one value
have the same power of two, as neither numerator can be halved, and then the same numerator. -/
theorem eq_of_value_eq {x y : Number} (hx : x.IsFinite) (hy : y.IsFinite) (h : x.value = y.value) :
    x = y := by
  match x, y, hx, hy with
  | whole n, whole n', _, _ =>
    rw [value_whole, value_whole] at h
    rw [Int.cast_injective h]
  | whole n, fraction m k odd, _, _ => exact absurd h (value_whole_ne_value_fraction n m k odd)
  | fraction m k odd, whole n, _, _ => exact absurd h.symm (value_whole_ne_value_fraction n m k odd)
  | fraction m k odd, fraction m' k' odd', _, _ =>
    obtain rfl : k = k' :=
      Nat.le_antisymm (le_of_value_fraction_eq h) (le_of_value_fraction_eq h.symm)
    rw [value_fraction, value_fraction, div_left_inj' (by positivity)] at h
    obtain rfl : m = m' := Int.cast_injective h
    rfl

/-- Bringing a dyadic fraction to lowest terms keeps its value. -/
lemma value_ofDyadic (m : ℤ) (k : ℕ) : (ofDyadic m k).value = m / 2 ^ k := by
  induction k generalizing m with
  | zero => rw [ofDyadic, value_whole, pow_zero, div_one]
  | succ k ih =>
    rw [ofDyadic]
    split
    · rfl
    · have hm : (m : ℚ) = (m / 2 : ℤ) * 2 := by exact_mod_cast (by omega : m = m / 2 * 2)
      rw [ih, hm, pow_succ, mul_div_mul_right _ _ two_ne_zero]

/-- A dyadic fraction is finite, whether it comes to a whole number or not. -/
lemma isFinite_ofDyadic (m : ℤ) (k : ℕ) : (ofDyadic m k).IsFinite := by
  induction k generalizing m with
  | zero => trivial
  | succ k ih =>
    rw [ofDyadic]
    split
    · trivial
    · exact ih _

/-- A number with the other sign has the other value. -/
lemma value_neg (x : Number) : x.neg.value = -x.value := by
  cases x <;> simp [neg, value, numerator, scale, neg_div]

/-- A number with the other sign is as finite. -/
lemma isFinite_neg {x : Number} : x.neg.IsFinite ↔ x.IsFinite := by
  cases x <;> rfl

/-! ## Powers of two -/

/-- The power of two of a natural exponent, as a rational number. -/
lemma cast_twoPow (k : ℕ) : (twoPow k : ℚ) = 2 ^ k := Nat.cast_pow 2 k

/-- The two powers of an exponent make up the power of two by it. -/
lemma pow2_eq (e : ℤ) : (pow2 e : ℚ) = 2 ^ e * pow2 (-e) := by
  rw [pow2, pow2, cast_twoPow, cast_twoPow, ← zpow_natCast, ← zpow_natCast, ← zpow_add₀ two_ne_zero]
  congr 1
  omega

/-- A power of two is positive, and for a negative exponent it is one. -/
lemma pow2_pos (e : ℤ) : 0 < pow2 e := Nat.two_pow_pos _

/-- A quotient whose sides are scaled by the powers of an exponent. -/
lemma cast_div_pow2 (num den : ℕ) (e : ℤ) :
    ((num * pow2 (-e) : ℕ) : ℚ) / (den * pow2 e : ℕ) = num / den / 2 ^ e := by
  have hp : (pow2 (-e) : ℚ) ≠ 0 := by exact_mod_cast (pow2_pos (-e)).ne'
  rw [Nat.cast_mul, Nat.cast_mul, pow2_eq e, ← mul_assoc, mul_div_mul_right _ _ hp, div_div]

/-! ## The binary exponent -/

/-- The powers of two around a positive natural number. -/
lemma two_pow_log2_le (n : ℕ) (hn : 0 < n) :
    (2 : ℚ) ^ (n.log2 : ℤ) ≤ n ∧ (n : ℚ) < 2 ^ (n.log2 + 1 : ℤ) := by
  have hlow : 2 ^ n.log2 ≤ n := Nat.log2_self_le hn.ne'
  have hhigh : n < 2 ^ (n.log2 + 1) := Nat.lt_log2_self
  constructor
  · exact_mod_cast hlow
  · exact_mod_cast hhigh

/-- The binary exponent is that of the greatest power of two that is not above the quotient.

**Proof sketch.** The logarithms of numerator and denominator give the exponent up to one: with `e`
their difference, the quotient lies between `2 ^ (e - 1)` and `2 ^ (e + 1)`. The test decides
between the two. -/
lemma binaryExponent_spec {num den : ℕ} (hn : 0 < num) (hd : 0 < den) :
    (2 : ℚ) ^ binaryExponent num den ≤ num / den ∧
      (num / den : ℚ) < 2 ^ (binaryExponent num den + 1) := by
  obtain ⟨hn1, hn2⟩ := two_pow_log2_le num hn
  obtain ⟨hd1, hd2⟩ := two_pow_log2_le den hd
  have hden : (0 : ℚ) < den := by exact_mod_cast hd
  have htwo : (2 : ℚ) ≠ 0 := two_ne_zero
  unfold binaryExponent
  extract_lets e
  have htest : num * pow2 (-e) < den * pow2 e ↔ (num / den : ℚ) < 2 ^ e := by
    have hp : (0 : ℚ) < (den * pow2 e : ℕ) := by exact_mod_cast Nat.mul_pos hd (pow2_pos e)
    have h2 : (0 : ℚ) < 2 ^ e := by positivity
    rw [← div_lt_one h2, ← cast_div_pow2, div_lt_one hp, Nat.cast_lt]
  have hlow : (2 : ℚ) ^ (e - 1) ≤ num / den := by
    rw [le_div_iff₀ hden]
    calc (2 : ℚ) ^ (e - 1) * den ≤ 2 ^ (e - 1) * 2 ^ (den.log2 + 1 : ℤ) := by gcongr
      _ = 2 ^ (num.log2 : ℤ) := by rw [← zpow_add₀ htwo]; congr 1; omega
      _ ≤ num := hn1
  have hhigh : (num / den : ℚ) < 2 ^ (e + 1) := by
    rw [div_lt_iff₀ hden]
    calc (num : ℚ) < 2 ^ (num.log2 + 1 : ℤ) := hn2
      _ = 2 ^ (e + 1) * 2 ^ (den.log2 : ℤ) := by rw [← zpow_add₀ htwo]; congr 1; omega
      _ ≤ 2 ^ (e + 1) * den := by gcongr
  split
  case isTrue h =>
    rw [sub_add_cancel]
    exact ⟨hlow, htest.1 h⟩
  case isFalse h => exact ⟨not_lt.1 fun hlt => h (htest.2 hlt), hhigh⟩

/-- There is but one binary exponent, for the powers of two do not overlap. -/
lemma exponent_unique {w : ℚ} {e f : ℤ} (he : (2 : ℚ) ^ e ≤ w ∧ w < 2 ^ (e + 1))
    (hf : (2 : ℚ) ^ f ≤ w ∧ w < 2 ^ (f + 1)) : e = f := by
  have hef := (zpow_lt_zpow_iff_right₀ (one_lt_two : (1 : ℚ) < 2)).1 (he.1.trans_lt hf.2)
  have hfe := (zpow_lt_zpow_iff_right₀ (one_lt_two : (1 : ℚ) < 2)).1 (hf.1.trans_lt he.2)
  omega

/-! ## Rounding to a whole number -/

/-- Rounding moves a quotient by a half at most.

**Proof sketch.** By cases on twice the remainder against the divisor: below it the quotient is
rounded down, above it up, and in the middle to the even side. -/
lemma abs_sub_roundDiv_le (n : ℕ) {d : ℕ} (hd : 0 < d) : |(n / d : ℚ) - roundDiv n d| ≤ 1 / 2 := by
  have hdq : (0 : ℚ) < d := by exact_mod_cast hd
  have hn : (n / d : ℚ) = (n / d : ℕ) + (n % d : ℕ) / d := by
    rw [eq_comm, ← mul_div_cancel_left₀ ((n / d : ℕ) : ℚ) hdq.ne', ← add_div]
    congr 1
    exact_mod_cast Nat.div_add_mod n d
  have hr : (0 : ℚ) ≤ (n % d : ℕ) / d := by positivity
  have hr1 : ((n % d : ℕ) : ℚ) / d ≤ 1 :=
    (div_le_one hdq).2 (by exact_mod_cast (Nat.mod_lt n hd).le)
  rw [hn, abs_le]
  unfold roundDiv
  extract_lets q r
  split_ifs with hlow hhigh
  · have hhalf : ((n % d : ℕ) : ℚ) / d ≤ 1 / 2 := by
      rw [div_le_div_iff₀ hdq two_pos]
      exact_mod_cast (by omega : n % d * 2 ≤ 1 * d)
    constructor <;> linarith
  · have hhalf : 1 / 2 ≤ ((n % d : ℕ) : ℚ) / d := by
      rw [div_le_div_iff₀ two_pos hdq]
      exact_mod_cast (by omega : 1 * d ≤ n % d * 2)
    push_cast
    constructor <;> linarith
  · have hhalf : ((n % d : ℕ) : ℚ) / d = 1 / 2 := by
      rw [div_eq_div_iff hdq.ne' two_ne_zero]
      exact_mod_cast (by omega : n % d * 2 = 1 * d)
    have hq : ((q % 2 : ℕ) : ℚ) ≤ 1 := by exact_mod_cast Nat.lt_succ_iff.1 (Nat.mod_lt q two_pos)
    have hq0 : (0 : ℚ) ≤ (q % 2 : ℕ) := Nat.cast_nonneg _
    push_cast at hq hq0 ⊢
    constructor <;> linarith

/-- A quotient is rounded to the whole number that it is less than a half away from.

**Proof sketch.** The rounded quotient is half a unit away from the quotient at most. So it is less
than a unit away from `q`, and both are whole. -/
lemma roundDiv_eq {n d q : ℕ} (hd : 0 < d) (h : |(n / d : ℚ) - q| < 1 / 2) : roundDiv n d = q := by
  have hround := abs_sub_roundDiv_le n hd
  have hclose : |((roundDiv n d : ℤ) - q : ℚ)| < 1 := by
    calc |((roundDiv n d : ℤ) - q : ℚ)| = |((n / d : ℚ) - q) - (n / d - roundDiv n d)| := by
          congr 1
          push_cast
          ring
      _ ≤ |(n / d : ℚ) - q| + |(n / d : ℚ) - roundDiv n d| := abs_sub _ _
      _ < 1 := by linarith
  have hint : |(roundDiv n d : ℤ) - q| < 1 := by exact_mod_cast hclose
  have hzero := Int.abs_lt_one_iff.1 hint
  omega

/-- Rounding a quotient depends on its value alone, not on how it is written. -/
lemma roundDiv_congr {n d n' d' : ℕ} (hd : 0 < d) (hd' : 0 < d') (h : n * d' = n' * d) :
    roundDiv n d = roundDiv n' d' := by
  have scale (c n d : ℕ) (hc : 0 < c) : roundDiv (c * n) (c * d) = roundDiv n d := by
    unfold roundDiv
    simp only [Nat.mul_div_mul_left n d hc, Nat.mul_mod_mul_left, Nat.mul_left_comm 2 c,
      Nat.mul_lt_mul_left hc]
  rw [← scale d' n d hd', ← scale d n' d' hd, Nat.mul_comm d' n, h, Nat.mul_comm n' d,
    Nat.mul_comm d' d]

/-! ## Binary64 -/

/-- The magnitudes with a significand of fifty-three bits and an exponent that is not too small. -/
def OnGrid (v : ℚ) : Prop := ∃ (s : ℕ) (p : ℤ), s < 2 ^ 53 ∧ -1074 ≤ p ∧ v = s * 2 ^ p

/-- The power of two that is too great for binary64. -/
@[irreducible]
def ceiling : ℚ := 2 ^ 1024

/-- The numbers that binary64 has. -/
def IsBinary64 (x : Number) : Prop := x.IsFinite → OnGrid |x.value| ∧ |x.value| < ceiling

/-- The upper bound of binary64 is above every significand. -/
lemma two_pow_lt_ceiling : (2 : ℚ) ^ 53 < ceiling := by
  rw [ceiling]
  exact pow_lt_pow_right₀ one_lt_two (by decide)

/-- The bound of binary64 is positive, so a magnitude may be compared to it. -/
lemma ceiling_pos : 0 < ceiling := (pow_pos two_pos 53).trans two_pow_lt_ceiling

/-- A multiple of a power of two is one of every smaller power. -/
lemma exists_eq_mul_of_le (s : ℕ) {p r : ℤ} (h : r ≤ p) : ∃ q : ℕ, (s * 2 ^ p : ℚ) = q * 2 ^ r := by
  obtain ⟨j, rfl⟩ := Int.le.dest h
  refine ⟨s * 2 ^ j, ?_⟩
  rw [zpow_add₀ two_ne_zero, zpow_natCast]
  push_cast
  ring

/-- A product of a significand of fifty-three bits is not as small as its exponent lets one think.
-/
lemma sub_le_of_two_pow_le {s : ℕ} {p e : ℤ} (hs : s < 2 ^ 53) (h : (2 : ℚ) ^ e ≤ s * 2 ^ p) :
    e - 52 ≤ p := by
  have hlt : (2 : ℚ) ^ e < 2 ^ (53 + p) := by
    rw [zpow_add₀ two_ne_zero]
    have hs' : (s : ℚ) < 2 ^ (53 : ℤ) := by exact_mod_cast hs
    exact h.trans_lt (by gcongr)
  have := (zpow_lt_zpow_iff_right₀ (one_lt_two : (1 : ℚ) < 2)).1 hlt
  omega

/-- Magnitudes from a power of two on are multiples of its last place. -/
lemma OnGrid.exists_eq_mul {v : ℚ} (hv : OnGrid v) {e : ℤ} (h : 2 ^ e ≤ v) :
    ∃ q : ℕ, v = q * 2 ^ lastPlace e := by
  obtain ⟨s, p, hs, hp, rfl⟩ := hv
  exact exists_eq_mul_of_le s (max_le (sub_le_of_two_pow_le hs h) hp)

/-- Behind a power of two there is a gap.

**Proof sketch.** Above `2 ^ e` the numbers of the grid are multiples of `2 ^ (e - 52)`, as `2 ^ e`
is. The next multiple is one step further. -/
lemma OnGrid.add_le_of_lt {v : ℚ} (hv : OnGrid v) {e : ℤ} (h : 2 ^ e < v) :
    2 ^ e + 2 ^ (e - 52) ≤ v := by
  obtain ⟨s, p, hs, -, rfl⟩ := hv
  obtain ⟨q, hq⟩ := exists_eq_mul_of_le s (sub_le_of_two_pow_le hs h.le)
  have hpos : (0 : ℚ) < 2 ^ (e - 52) := by positivity
  have he : (2 : ℚ) ^ e = 2 ^ 52 * 2 ^ (e - 52) := by
    rw [← zpow_natCast, ← zpow_add₀ two_ne_zero]
    congr 1
    norm_num
  rw [hq, he] at h ⊢
  have hlt : 2 ^ 52 < q := by exact_mod_cast lt_of_mul_lt_mul_right h hpos.le
  have hle : (2 ^ 52 + 1 : ℚ) ≤ q := by exact_mod_cast hlt
  calc (2 : ℚ) ^ 52 * 2 ^ (e - 52) + 2 ^ (e - 52) = (2 ^ 52 + 1) * 2 ^ (e - 52) := by ring
    _ ≤ (q : ℚ) * 2 ^ (e - 52) := by gcongr

/-- In front of a power of two there is a gap half as wide.

**Proof sketch.** Below `2 ^ e` a number of the grid is at most `2 ^ 53 - 1` steps of `2 ^ (e -
53)`: either its own step is not wider and it has less than `2 ^ 53` of them, or it is a multiple of
that step. -/
lemma OnGrid.le_sub_of_lt {v : ℚ} (hv : OnGrid v) {e : ℤ} (h : v < 2 ^ e) :
    v ≤ 2 ^ e - 2 ^ (e - 53) := by
  obtain ⟨s, p, hs, -, rfl⟩ := hv
  have hpos : (0 : ℚ) < 2 ^ (e - 53) := by positivity
  have he : (2 : ℚ) ^ e = 2 ^ 53 * 2 ^ (e - 53) := by
    rw [← zpow_natCast, ← zpow_add₀ two_ne_zero]
    congr 1
    norm_num
  suffices hle : ∃ q : ℕ, q < 2 ^ 53 ∧ (s * 2 ^ p : ℚ) ≤ q * 2 ^ (e - 53) by
    obtain ⟨q, hq, hle⟩ := hle
    have hq' : (q : ℚ) ≤ 2 ^ 53 - 1 := by
      rw [le_sub_iff_add_le]
      exact_mod_cast hq
    calc (s * 2 ^ p : ℚ) ≤ q * 2 ^ (e - 53) := hle
      _ ≤ (2 ^ 53 - 1) * 2 ^ (e - 53) := by gcongr
      _ = 2 ^ e - 2 ^ (e - 53) := by rw [he]; ring
  rcases le_total p (e - 53) with hp | hp
  · exact ⟨s, hs, by gcongr; exact one_le_two⟩
  · obtain ⟨q, hq⟩ := exists_eq_mul_of_le s hp
    rw [hq, he] at h
    exact ⟨q, by exact_mod_cast lt_of_mul_lt_mul_right h hpos.le, hq.le⟩

/-- The place of a binary exponent leaves fifty-three bits in front of it. -/
lemma two_pow_le_of_lastPlace (e : ℤ) : (2 : ℚ) ^ (e + 1) ≤ 2 ^ 53 * 2 ^ lastPlace e := by
  have he : e + 1 ≤ 53 + lastPlace e := by
    have : e - 52 ≤ lastPlace e := le_max_left _ _
    omega
  calc (2 : ℚ) ^ (e + 1) ≤ 2 ^ (53 + lastPlace e) := zpow_le_zpow_right₀ one_le_two he
    _ = 2 ^ 53 * 2 ^ lastPlace e := by
      rw [zpow_add₀ two_ne_zero]
      rfl

/-! ## Rounding a quotient -/

/-- A magnitude with a sign. -/
def withSign (negative : Bool) (v : ℚ) : ℚ := if negative then -v else v

/-- The significand that a quotient is rounded to. -/
def significand (num den : ℕ) : ℕ :=
  let place := lastPlace (binaryExponent num den)
  roundDiv (num * pow2 (-place)) (den * pow2 place)

/-- The magnitude that a quotient is rounded to, unless it is too great. -/
def rounded (num den : ℕ) : ℚ := significand num den * 2 ^ lastPlace (binaryExponent num den)

/-- The significand is the quotient in units of the last place, up to a half. -/
lemma abs_sub_significand_le (num : ℕ) {den : ℕ} (hd : 0 < den) :
    |num / den / 2 ^ lastPlace (binaryExponent num den) - (significand num den : ℚ)| ≤ 1 / 2 := by
  rw [← cast_div_pow2]
  exact abs_sub_roundDiv_le _ (Nat.mul_pos hd (pow2_pos _))

/-- A significand has fifty-three bits, or is the power of two that has one more. -/
lemma significand_le {num den : ℕ} (hn : 0 < num) (hd : 0 < den) :
    significand num den ≤ 2 ^ 53 := by
  have hlt : (num / den / 2 ^ lastPlace (binaryExponent num den) : ℚ) < 2 ^ 53 := by
    rw [div_lt_iff₀ (by positivity)]
    exact (binaryExponent_spec hn hd).2.trans_le (two_pow_le_of_lastPlace _)
  have hnear := (abs_le.1 (abs_sub_significand_le num hd)).1
  have hcast : (significand num den : ℚ) < 2 ^ 53 + 1 := by linarith
  exact Nat.lt_succ_iff.1 (by exact_mod_cast hcast)

/-- The rounded magnitude is on the grid, even if it is beyond the largest number. -/
lemma onGrid_rounded {num den : ℕ} (hn : 0 < num) (hd : 0 < den) : OnGrid (rounded num den) := by
  have hplace : -1074 ≤ lastPlace (binaryExponent num den) := le_max_right _ _
  rcases (significand_le hn hd).lt_or_eq with hlt | heq
  · exact ⟨_, _, hlt, hplace, rfl⟩
  · refine ⟨2 ^ 52, lastPlace (binaryExponent num den) + 1, by norm_num, by omega, ?_⟩
    rw [rounded, heq, zpow_add_one₀ two_ne_zero]
    push_cast
    ring

/-- The bound of binary64 holds for the rounded magnitude if it does for the whole number in front
of its last place.

**Proof sketch.** If the last place is worth one or more, both sides compare the same number.
Otherwise the significand alone is below the bound, so both sides hold. -/
lemma rounded_lt_iff {num den : ℕ} (hn : 0 < num) (hd : 0 < den) :
    rounded num den < ceiling ↔
      significand num den * pow2 (lastPlace (binaryExponent num den)) < twoPow 1024 := by
  have hsig : (significand num den : ℚ) ≤ 2 ^ 53 := by exact_mod_cast significand_le hn hd
  have hceil : ((twoPow 1024 : ℕ) : ℚ) = ceiling := by rw [ceiling, cast_twoPow]
  have hbound := hsig.trans_lt two_pow_lt_ceiling
  rw [← @Nat.cast_lt ℚ, hceil, Nat.cast_mul, rounded]
  generalize lastPlace (binaryExponent num den) = place
  rcases le_total 0 place with h | h
  · obtain ⟨j, rfl⟩ := Int.eq_ofNat_of_zero_le h
    have hpow : ((pow2 (j : ℤ) : ℕ) : ℚ) = 2 ^ (j : ℤ) := by
      rw [zpow_natCast]
      exact cast_twoPow j
    rw [hpow]
  · have hpow : pow2 place = 1 := by rw [pow2, Int.toNat_eq_zero.2 h, twoPow_zero]
    have hone : (2 : ℚ) ^ place ≤ 1 := zpow_le_one_of_nonpos₀ one_le_two h
    rw [hpow, Nat.cast_one, mul_one]
    have hle : (significand num den * 2 ^ place : ℚ) ≤ significand num den :=
      mul_le_of_le_one_right (Nat.cast_nonneg _) hone
    exact iff_of_true (hle.trans_lt hbound) hbound

/-- A quotient is rounded to the finite number with the rounded magnitude, unless that is too great.

**Proof sketch.** The test for the bound is that of `rounded_lt_iff`. Then the result is the
significand over the power of two of its last place, with the sign. -/
lemma ofQuotient_of_rounded_lt (negative : Bool) {num den : ℕ} (hn : 0 < num) (hd : 0 < den)
    (h : rounded num den < ceiling) :
    (ofQuotient negative num den).IsFinite ∧
      (ofQuotient negative num den).value = withSign negative (rounded num den) := by
  have hq : ofQuotient negative num den =
      ofDyadic ((if negative then -(significand num den : ℤ) else significand num den) *
        pow2 (lastPlace (binaryExponent num den))) (-lastPlace (binaryExponent num den)).toNat := by
    rw [ofQuotient, if_neg hn.ne']
    exact if_neg (not_le.2 ((rounded_lt_iff hn hd).1 h))
  have hpow : (2 : ℚ) ^ (-lastPlace (binaryExponent num den)).toNat =
      pow2 (-lastPlace (binaryExponent num den)) := (cast_twoPow _).symm
  have hne : (pow2 (-lastPlace (binaryExponent num den)) : ℚ) ≠ 0 := by
    exact_mod_cast (pow2_pos _).ne'
  rw [hq, value_ofDyadic, Int.cast_mul, Int.cast_natCast, pow2_eq, hpow, ← mul_assoc,
    mul_div_cancel_right₀ _ hne]
  refine ⟨isFinite_ofDyadic _ _, ?_⟩
  cases negative <;> simp [withSign, rounded]

/-- A quotient whose rounded magnitude is too great is rounded to an infinity. -/
lemma ofQuotient_of_le_rounded (negative : Bool) {num den : ℕ} (hn : 0 < num) (hd : 0 < den)
    (h : ceiling ≤ rounded num den) : ofQuotient negative num den = infinite negative := by
  rw [ofQuotient, if_neg hn.ne']
  exact if_pos (not_lt.1 fun hlt => not_lt.2 h ((rounded_lt_iff hn hd).2 hlt))

/-- A signed magnitude has that magnitude, with either sign. -/
lemma abs_withSign (negative : Bool) {v : ℚ} (hv : 0 ≤ v) : |withSign negative v| = v := by
  cases negative <;> simp [withSign, abs_of_nonneg hv]

/-- **What a quotient is rounded to is a binary64 number.**

**Proof sketch.** By cases on whether the rounded magnitude is below the bound: then it is on the
grid; otherwise the result is infinite. -/
theorem isBinary64_ofQuotient (negative : Bool) (num : ℕ) {den : ℕ} (hd : 0 < den) :
    (ofQuotient negative num den).IsBinary64 := by
  intro hfin
  rcases Nat.eq_zero_or_pos num with rfl | hn
  · rw [ofQuotient, if_pos rfl, value_whole, Int.cast_zero, abs_zero]
    exact ⟨⟨0, 0, by norm_num, by norm_num, by simp⟩, ceiling_pos⟩
  · rcases lt_or_ge (rounded num den) ceiling with hlt | hge
    · have hpos : 0 ≤ rounded num den := by
        rw [rounded]
        positivity
      rw [(ofQuotient_of_rounded_lt negative hn hd hlt).2, abs_withSign negative hpos]
      exact ⟨onGrid_rounded hn hd, hlt⟩
    · rw [ofQuotient_of_le_rounded negative hn hd hge] at hfin
      exact hfin.elim

/-- **Equal quotients are rounded to the same number.**

**Proof sketch.** Equal quotients have the same binary exponent, so they are divided by the same
unit, and rounding a division depends on the quotient only. -/
theorem ofQuotient_congr (negative : Bool) {num den num' den' : ℕ} (hd : 0 < den) (hd' : 0 < den')
    (h : num * den' = num' * den) :
    ofQuotient negative num den = ofQuotient negative num' den' := by
  rcases Nat.eq_zero_or_pos num with rfl | hn
  · have hn' : num' = 0 := by simpa [hd.ne'] using h.symm
    rw [hn', ofQuotient, ofQuotient, if_pos rfl, if_pos rfl]
  · have hn' : 0 < num' := by
      have : 0 < num' * den := h ▸ Nat.mul_pos hn hd'
      exact Nat.pos_of_mul_pos_right this
    have hw : (num / den : ℚ) = num' / den' := by
      rw [div_eq_div_iff (by positivity) (by positivity)]
      exact_mod_cast h
    have he : binaryExponent num den = binaryExponent num' den' :=
      exponent_unique (binaryExponent_spec hn hd) (hw ▸ binaryExponent_spec hn' hd')
    have hs (p : ℤ) :
        roundDiv (num * pow2 (-p)) (den * pow2 p) = roundDiv (num' * pow2 (-p)) (den' * pow2 p) :=
      roundDiv_congr (Nat.mul_pos hd (pow2_pos p)) (Nat.mul_pos hd' (pow2_pos p)) (by
        rw [Nat.mul_mul_mul_comm, h, Nat.mul_mul_mul_comm])
    rw [ofQuotient, ofQuotient, if_neg hn.ne', if_neg hn'.ne', he]
    simp only [hs]

/-- A distance in units, times the unit, is the distance as a whole. -/
lemma abs_div_sub_mul {u : ℚ} (hu : 0 < u) (w x : ℚ) : |w / u - x| * u = |w - x * u| := by
  rw [← abs_of_pos hu, ← abs_mul, abs_of_pos hu, sub_mul, div_mul_cancel₀ _ hu.ne']

/-- A quotient close to a magnitude on the grid is rounded to it.

**Proof sketch.** Between the quotient and the magnitude there is no power of two but for the one
that the magnitude may be: the gap behind a power of two and that in front of it are wider than the
distance of the two. So the magnitude is a multiple of the last place of the quotient, and the
distance is less than half of it. -/
lemma rounded_eq_of_near {num den : ℕ} (hn : 0 < num) (hd : 0 < den) {v : ℚ} (hv : OnGrid v)
    (h : |num / den - v| < v / 2 ^ 54) : rounded num den = v := by
  obtain ⟨hlow, hhigh⟩ := binaryExponent_spec hn hd
  obtain ⟨h1, h2⟩ := abs_lt.1 h
  have hsplit (e : ℤ) (j : ℕ) : (2 : ℚ) ^ (e - j) = 2 ^ e / 2 ^ j := by
    rw [zpow_sub₀ two_ne_zero, zpow_natCast]
  have hbelow : v ≤ 2 ^ (binaryExponent num den + 1) := by
    by_contra hlt
    have hgap := hv.add_le_of_lt (not_le.1 hlt)
    have hpos : (0 : ℚ) < 2 ^ (binaryExponent num den + 1) := by positivity
    rw [show (52 : ℤ) = (52 : ℕ) from rfl, hsplit] at hgap
    norm_num at hgap h1
    linarith
  have habove : 2 ^ binaryExponent num den ≤ v := by
    by_contra hlt
    have hgap := hv.le_sub_of_lt (not_le.1 hlt)
    have hpos : (0 : ℚ) < 2 ^ binaryExponent num den := by positivity
    rw [show (53 : ℤ) = (53 : ℕ) from rfl, hsplit] at hgap
    norm_num at hgap h2
    linarith
  obtain ⟨q, hq⟩ := hv.exists_eq_mul habove
  have hp : (0 : ℚ) < 2 ^ lastPlace (binaryExponent num den) := by positivity
  have hsig : significand num den = q := by
    refine roundDiv_eq (Nat.mul_pos hd (pow2_pos _)) ?_
    rw [cast_div_pow2]
    have hdist : |(num / den / 2 ^ lastPlace (binaryExponent num den) - q : ℚ)| *
        2 ^ lastPlace (binaryExponent num den) = |num / den - v| := by
      rw [abs_div_sub_mul hp, ← hq]
    have hhalf : v / 2 ^ 54 ≤ 1 / 2 * 2 ^ lastPlace (binaryExponent num den) := by
      have hplace := hbelow.trans (two_pow_le_of_lastPlace (binaryExponent num den))
      rw [div_le_iff₀ (by positivity)]
      calc v ≤ 2 ^ 53 * 2 ^ lastPlace (binaryExponent num den) := hplace
        _ = 1 / 2 * 2 ^ lastPlace (binaryExponent num den) * 2 ^ 54 := by ring
    exact lt_of_mul_lt_mul_right (hdist.trans_lt (h.trans_le hhalf)) hp.le
  rw [rounded, hsig, ← hq]

/-- **A quotient close to a binary64 number is rounded to it.**

**Proof sketch.** The magnitude is rounded to the number of the grid that it is close to, by
`rounded_eq_of_near`, and a finite number is told by its value. -/
theorem ofQuotient_of_near {x : Number} (hx : x.IsFinite) {negative : Bool} {v : ℚ}
    (hxv : x.value = withSign negative v) (hv : OnGrid v) (hlt : v < ceiling) {num den : ℕ}
    (hd : 0 < den) (h : |num / den - v| < v / 2 ^ 54) : ofQuotient negative num den = x := by
  have hpos : 0 < v := by
    have := (abs_nonneg _).trans_lt h
    linarith [div_mul_cancel₀ v (show (2 : ℚ) ^ 54 ≠ 0 by norm_num)]
  have hn : 0 < num := by
    rcases Nat.eq_zero_or_pos num with rfl | hn
    · rw [Nat.cast_zero, zero_div, zero_sub, abs_neg, abs_of_pos hpos] at h
      norm_num at h
      linarith
    · exact hn
  have hround := rounded_eq_of_near hn hd hv h
  obtain ⟨hfin, hval⟩ := ofQuotient_of_rounded_lt negative hn hd (hround ▸ hlt)
  exact eq_of_value_eq hfin hx (by rw [hval, hround, hxv])

end DebugWire.Number
