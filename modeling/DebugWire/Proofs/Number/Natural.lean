import DebugWire.Proofs.Number.Decimal
import DebugWire.Proofs.Number.Ordering
import DebugWire.Proofs.Number.Reading

set_option relaxedAutoImplicit false
set_option autoImplicit false

/-!
# Natural numbers that are rounded

A natural number is rounded to the nearest that binary64 has, so to itself exactly if binary64 has
it. What it is rounded to is a natural number again, or infinity. In base sixteen two of them have
the same text only if they are the same, whatever zeros stand in front.

## Main results

* `DebugWire.Number.abs_sub_rounded_le` — no magnitude of binary64 is nearer to a quotient than the
  rounded one.
* `DebugWire.Number.ofInt_natCast_cases` — what a natural number is rounded to.
* `DebugWire.Number.ofInt_eq_whole_iff` — the natural numbers that stay as they are.
* `DebugWire.Number.leftpad_hexChars_eq_iff` — the text of a rounded number.
-/

namespace DebugWire.Number

variable {n m : ℕ} {v : ℚ}

/-! ## The nearest magnitude -/

/-- No whole number is nearer to a quotient than the one that it is rounded to.

**Proof sketch.** The rounded quotient is half a unit away at most. Any other whole number is a unit
away from that one, so by the triangle inequality it is half a unit away from the quotient at least.
-/
lemma abs_sub_roundDiv_le_abs_sub (a : ℕ) {d : ℕ} (hd : 0 < d) (q : ℕ) :
    |(a / d : ℚ) - roundDiv a d| ≤ |(a / d : ℚ) - q| := by
  have hhalf := abs_sub_roundDiv_le a hd
  rcases eq_or_ne (roundDiv a d) q with heq | hne
  · rw [heq]
  have hone : (1 : ℚ) ≤ |(roundDiv a d : ℚ) - q| := by
    have hint : (1 : ℤ) ≤ |(roundDiv a d : ℤ) - q| := Int.one_le_abs (by omega)
    exact_mod_cast hint
  have htriangle : |(roundDiv a d : ℚ) - q| ≤ |(a / d : ℚ) - q| + |(a / d : ℚ) - roundDiv a d| := by
    rw [← abs_sub_comm (roundDiv a d : ℚ) (a / d : ℚ), add_comm]
    exact abs_sub_le _ _ _
  linarith

/-- **No magnitude of binary64 is nearer** to a quotient than the one that it is rounded to.

**Proof sketch.** From the power of two under the quotient on, the magnitudes are multiples of the
last place, and the significand is the nearest of these. A smaller magnitude is farther away than
that power of two, which is one of the multiples. -/
theorem abs_sub_rounded_le {num den : ℕ} (hn : 0 < num) (hd : 0 < den) (hv : OnGrid v) :
    |(num / den : ℚ) - rounded num den| ≤ |(num / den : ℚ) - v| := by
  obtain ⟨hlow, -⟩ := binaryExponent_spec hn hd
  set e := binaryExponent num den with he
  have hplace : (0 : ℚ) < 2 ^ lastPlace e := by positivity
  have hmultiple (q : ℕ) :
      |(num / den : ℚ) - rounded num den| ≤ |(num / den : ℚ) - q * 2 ^ lastPlace e| := by
    have hnear :=
      abs_sub_roundDiv_le_abs_sub (num * pow2 (-lastPlace e))
        (Nat.mul_pos hd (pow2_pos (lastPlace e))) q
    rw [cast_div_pow2] at hnear
    have hscaled := mul_le_mul_of_nonneg_right hnear hplace.le
    rwa [abs_div_sub_mul hplace, abs_div_sub_mul hplace] at hscaled
  rcases le_or_gt (2 ^ e) v with hle | hlt
  · obtain ⟨q, rfl⟩ := hv.exists_eq_mul hle
    exact hmultiple q
  by_cases hsmall : e < -1074
  · -- Below the least place of binary64 all its magnitudes are multiples of this place.
    obtain ⟨s, p, -, hp, rfl⟩ := hv
    have hleast : lastPlace e ≤ p := max_le (by omega) hp
    obtain ⟨q, hq⟩ := exists_eq_mul_of_le s hleast
    rw [hq]
    exact hmultiple q
  · have hplace : lastPlace e ≤ e := max_le (by omega) (by omega)
    obtain ⟨q, hq⟩ := exists_eq_mul_of_le 1 hplace
    rw [Nat.cast_one, one_mul] at hq
    calc |(num / den : ℚ) - rounded num den| ≤ |(num / den : ℚ) - 2 ^ e| := hq ▸ hmultiple q
      _ = num / den - 2 ^ e := abs_of_nonneg (sub_nonneg.2 hlow)
      _ ≤ num / den - v := by linarith
      _ ≤ |(num / den : ℚ) - v| := le_abs_self _

/-! ## Rounding -/

/-- A natural number is rounded to a natural number, or to infinity.

**Proof sketch.** A number up to the exact limit stays. Above it the last place of binary64 is worth
one or more, so rounding gives a whole number, unless it overflows. -/
lemma ofInt_natCast_cases (n : ℕ) :
    (∃ m : ℕ, ofInt n = (m : Number)) ∨ ofInt n = infinite false := by
  rw [ofInt, round]
  split_ifs with h
  · exact .inl ⟨n, rfl⟩
  have hgreat : exactLimit < n := by omega
  have hplace : (-lastPlace (binaryExponent n 1)).toNat = 0 := by
    have hexponent := le_binaryExponent hgreat.le
    have hlast : binaryExponent n 1 - 52 ≤ lastPlace (binaryExponent n 1) := le_max_left _ _
    omega
  have hpos : n ≠ 0 := by omega
  rw [decide_eq_false (by omega), Int.natAbs_natCast, twoPow_zero, ofQuotient, if_neg hpos]
  simp only [Bool.false_eq_true, if_false, hplace, ofDyadic]
  split_ifs
  · exact .inr rfl
  · exact .inl ⟨_, congrArg whole (Int.natCast_mul _ _).symm⟩

/-- **A natural number stays as it is** exactly if binary64 has it.

**Proof sketch.** What comes out of rounding is of binary64. Conversely a number of binary64 is on
the grid, where rounding changes nothing. -/
theorem ofInt_eq_whole_iff (n : ℕ) : ofInt n = (n : Number) ↔ (n : Number).IsBinary64 := by
  constructor
  · intro h
    rw [← h]
    exact isBinary64_ofInt n
  · intro h
    rw [ofInt, round]
    split_ifs with hle
    · rfl
    have hpos : 0 < n := by omega
    have habs : |(n : Number).value| = (n : ℚ) / (1 : ℕ) := by
      rw [value_whole, Int.cast_natCast, Nat.abs_cast, Nat.cast_one, div_one]
    obtain ⟨hgrid, hlt⟩ := h trivial
    rw [habs] at hgrid hlt
    rw [decide_eq_false (by omega), Int.natAbs_natCast, twoPow_zero]
    obtain ⟨hfinite, hvalue⟩ := ofQuotient_of_onGrid false hpos one_pos hgrid hlt
    refine eq_of_value_eq hfinite trivial ?_
    rw [hvalue, value_whole, Int.cast_natCast, withSign, if_neg Bool.false_ne_true, Nat.cast_one,
      div_one]

/-- The sum of two natural numbers is rounded once, from their exact sum. -/
lemma natCast_add_eq_ofInt (a b : ℕ) : (a : Number) + (b : Number) = ofInt (a + b : ℕ) := by
  rw [whole_add_eq_round, ofInt, Int.natCast_add]

/-- What a natural number is rounded to is nearest to it.

**Proof sketch.** The result is the quotient rounded to the grid, which is nearest among the points
of the grid. -/
lemma abs_sub_le_of_ofInt (h : ofInt n = (m : Number)) (hv : OnGrid v) :
    |(n : ℚ) - m| ≤ |(n : ℚ) - v| := by
  rw [ofInt, round] at h
  split_ifs at h with hle
  · have hnm : n = m := by exact_mod_cast whole.inj h
    rw [hnm, sub_self, abs_zero]
    exact abs_nonneg _
  have hpos : 0 < n := by omega
  rw [decide_eq_false (by omega), Int.natAbs_natCast, twoPow_zero] at h
  have hm : (m : ℚ) = rounded n 1 := by
    rcases lt_or_ge (rounded n 1) ceiling with hlt | hge
    · obtain ⟨-, hvalue⟩ := ofQuotient_of_rounded_lt false hpos one_pos hlt
      rw [h, value_whole, Int.cast_natCast, withSign, if_neg Bool.false_ne_true] at hvalue
      exact hvalue
    · rw [ofQuotient_of_le_rounded false hpos one_pos hge] at h
      cases h
  have hnear := abs_sub_rounded_le hpos one_pos hv
  rwa [← hm, Nat.cast_one, div_one] at hnear

/-! ## Base sixteen -/

/-- The text of a natural number in base sixteen. -/
lemma hexChars_natCast (n : ℕ) : (n : Number).hexChars = Nat.toDigits 16 n := by
  rw [hexChars, decide_eq_false (by omega), Int.natAbs_natCast, signed, if_neg Bool.false_ne_true,
    Digits.text_eq_toDigits (by decide)]

/-- A number is read from its text in base sixteen, whatever zeros stand in front of it. -/
lemma readHex?_leftpad (width n : ℕ) :
    Digits.readHex? (List.leftpad width '0' (Nat.toDigits 16 n)) = some n := by
  have hdigit : ∀ d < 16, Digits.IsDigit 16 (Nat.digitChar d) d := fun d hd => ⟨hd, .inl rfl⟩
  have hdenotes := Digits.denotes_ofNat (by decide) hdigit (width - (Digits.ofNat 16 n).length) n
  rw [List.map_append, List.map_replicate, ← Digits.text] at hdenotes
  rw [Digits.readHex?_eq_some_iff, List.leftpad, ← Digits.text_eq_toDigits (by decide), Digits.text,
    List.length_map]
  exact hdenotes

/-- **The text of a rounded number** is that of the number exactly if binary64 has it.

**Proof sketch.** The text of a rounded number reads back as that number, so equal texts mean that
rounding has changed nothing; the text of infinity is not read at all. -/
theorem leftpad_hexChars_eq_iff (n : ℕ) :
    List.leftpad 4 '0' (ofInt n).hexChars = List.leftpad 4 '0' (Nat.toDigits 16 n) ↔
      (n : Number).IsBinary64 := by
  rw [← ofInt_eq_whole_iff]
  constructor
  · intro h
    obtain ⟨m, hm⟩ | hinfinite := ofInt_natCast_cases n
    · have hread := readHex?_leftpad 4 m
      rw [← hexChars_natCast, ← hm, h, readHex?_leftpad, Option.some.injEq] at hread
      rw [hm, hread]
    · have hread := readHex?_leftpad 4 n
      rw [← h, hinfinite] at hread
      cases hread
  · intro h
    rw [h, hexChars_natCast]

end DebugWire.Number
