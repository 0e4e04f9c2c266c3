import DebugWire.Number.Literal
import DebugWire.Proofs.Number.Digits
import DebugWire.Proofs.Number.Rounding

set_option relaxedAutoImplicit false
set_option autoImplicit false

/-!
# The fewest decimal digits

The decimal digits that `DebugWire.Number.shortestDigits` finds for a magnitude of binary64 read
back as that magnitude. Whatever number of digits the search stops at, it has tested that they read
back; with seventeen it cannot fail, because the two ends of a step of that grid are too close for
both to be rounded to another number.

## Main results

* `DebugWire.Number.ofDecimal_mul_pow` — zeros at the end of the digits do not matter.
* `DebugWire.Number.ofDecimal_of_near` — a decimal close to a binary64 number is read as that
  number.
* `DebugWire.Number.shortestDecimal_spec` — the search succeeds, and what it finds reads back.
* `DebugWire.Number.ofDecimal_shortestDigits` — so do the digits without the zeros at their end.
-/

namespace DebugWire

namespace Number

/-! ## Powers of ten -/

/-- The two powers of an exponent make up the power of ten by it. -/
lemma pow10_eq (e : ℤ) : (pow10 e : ℚ) = 10 ^ e * pow10 (-e) := by
  have hpow (n : ℕ) : ((Nat.pow 10 n : ℕ) : ℚ) = 10 ^ (n : ℤ) := by
    rw [zpow_natCast]
    exact Nat.cast_pow 10 n
  rw [pow10, pow10, hpow, hpow, ← zpow_add₀ (by norm_num)]
  congr 1
  omega

/-- A power of ten is positive, and for a negative exponent it is one. -/
lemma pow10_pos (e : ℤ) : 0 < pow10 e := Nat.pow_pos (by decide)

/-- A quotient whose sides are scaled by the powers of an exponent. -/
lemma cast_div_pow10 (num den : ℕ) (e : ℤ) :
    ((num * pow10 (-e) : ℕ) : ℚ) / (den * pow10 e : ℕ) = num / den / 10 ^ e := by
  have hp : (pow10 (-e) : ℚ) ≠ 0 := by exact_mod_cast (pow10_pos (-e)).ne'
  rw [Nat.cast_mul, Nat.cast_mul, pow10_eq e, ← mul_assoc, mul_div_mul_right _ _ hp, div_div]

/-- A decimal as a quotient of the two natural numbers that it is read as. -/
lemma cast_decimal (s : ℕ) (e : ℤ) : ((s * pow10 e : ℕ) : ℚ) / (pow10 (-e) : ℕ) = s * 10 ^ e := by
  have h := cast_div_pow10 s 1 (-e)
  rw [neg_neg, Nat.one_mul, Nat.cast_one, div_one, zpow_neg, div_inv_eq_mul] at h
  exact h

/-- The decimal point stands behind the first digit that is not zero.

**Proof sketch.** The lengths of numerator and denominator give the exponent up to one: with `n`
their difference, the quotient lies between the powers of ten with `n - 1` and `n + 1`. The test
decides between the two. -/
lemma decimalPoint_spec {num den : ℕ} (hn : 0 < num) (hd : 0 < den) :
    (10 : ℚ) ^ (decimalPoint num den - 1) ≤ num / den ∧
      (num / den : ℚ) < 10 ^ decimalPoint num den := by
  obtain ⟨hn1, hn2⟩ := Digits.cast_pow_length hn
  obtain ⟨hd1, hd2⟩ := Digits.cast_pow_length hd
  have hden : (0 : ℚ) < den := by exact_mod_cast hd
  have hten : (10 : ℚ) ≠ 0 := by norm_num
  unfold decimalPoint
  extract_lets n
  have htest : den * pow10 n ≤ num * pow10 (-n) ↔ (10 : ℚ) ^ n ≤ num / den := by
    have hp : (0 : ℚ) < (den * pow10 n : ℕ) := by exact_mod_cast Nat.mul_pos hd (pow10_pos n)
    have h10 : (0 : ℚ) < 10 ^ n := by positivity
    rw [← one_le_div h10, ← cast_div_pow10, one_le_div hp, Nat.cast_le]
  have hlow : (10 : ℚ) ^ (n - 1) ≤ num / den := by
    rw [le_div_iff₀ hden]
    calc
      (10 : ℚ) ^ (n - 1) * den ≤ 10 ^ (n - 1) * 10 ^ ((Digits.ofNat 10 den).length : ℤ) := by gcongr
      _ = 10 ^ ((Digits.ofNat 10 num).length - 1 : ℤ) := by rw [← zpow_add₀ hten]; congr 1; omega
      _ ≤ num := hn1
  have hhigh : (num / den : ℚ) < 10 ^ (n + 1) := by
    rw [div_lt_iff₀ hden]
    calc (num : ℚ) < 10 ^ ((Digits.ofNat 10 num).length : ℤ) := hn2
      _ = 10 ^ (n + 1) * 10 ^ ((Digits.ofNat 10 den).length - 1 : ℤ) := by
        rw [← zpow_add₀ hten]; congr 1; omega
      _ ≤ 10 ^ (n + 1) * den := by gcongr
  split
  case isTrue h =>
    rw [add_sub_cancel_right]
    exact ⟨htest.1 h, hhigh⟩
  case isFalse h => exact ⟨hlow, not_le.1 fun hle => h (htest.2 hle)⟩

/-! ## Reading decimals -/

/-- A natural number that binary64 holds exactly is a magnitude of it. -/
lemma onGrid_natCast {n : ℕ} (h : n ≤ exactLimit) : OnGrid n := by
  rcases h.lt_or_eq with hlt | rfl
  · exact ⟨n, 0, hlt, by norm_num, by simp⟩
  · exact ⟨1, 53, by norm_num, by norm_num, by norm_num [exactLimit]⟩

/-- A magnitude on the grid is not rounded, so its quotient has that value. -/
lemma ofQuotient_of_onGrid (negative : Bool) {num den : ℕ} (hn : 0 < num) (hd : 0 < den)
    (hv : OnGrid (num / den)) (hlt : (num / den : ℚ) < ceiling) :
    (ofQuotient negative num den).IsFinite ∧ (ofQuotient negative num den).value =
      withSign negative (num / den) := by
  have hround : rounded num den = num / den := by
    refine rounded_eq_of_near hn hd hv ?_
    rw [sub_self, abs_zero]
    positivity
  rw [← hround]
  exact ofQuotient_of_rounded_lt negative hn hd (hround ▸ hlt)

/-- Digits are read by the position of the first one and by the value of the decimal.

**Proof sketch.** The short way for small whole numbers agrees with the long one: such a number is
on the grid of binary64, so the quotient rounds to it, and it is not out of range. -/
lemma ofDecimal_eq (negative : Bool) {s : ℕ} (hs : 0 < s) (e : ℤ) :
    ofDecimal negative s e =
      if 310 < ((Digits.ofNat 10 s).length : ℤ) + e then infinite negative
      else if ((Digits.ofNat 10 s).length : ℤ) + e < -330 then whole 0
      else ofQuotient negative (s * pow10 e) (pow10 (-e)) := by
  rw [ofDecimal, if_neg hs.ne']
  split
  case isFalse => rfl
  case isTrue h =>
    obtain ⟨rfl, hle⟩ := h
    have hlen : 10 ^ (Digits.ofNat 10 s).length < 10 ^ 18 := by
      have := Digits.pow_length_le hs
      have : exactLimit < 10 ^ 16 := by norm_num [exactLimit]
      omega
    have hlen' := (Nat.pow_lt_pow_iff_right (by decide : 1 < 10)).1 hlen
    have hgreat : ¬ 310 < ((Digits.ofNat 10 s).length : ℤ) + 0 := by omega
    have hsmall : ¬ ((Digits.ofNat 10 s).length : ℤ) + 0 < -330 := by omega
    rw [if_neg hgreat, if_neg hsmall]
    symm
    have hone : pow10 0 = 1 := rfl
    rw [neg_zero, hone, Nat.mul_one]
    have hcast : (s : ℚ) ≤ 2 ^ 53 := by exact_mod_cast hle
    have hexact := ofQuotient_of_onGrid negative hs one_pos
    rw [Nat.cast_one, div_one] at hexact
    obtain ⟨hfin, hval⟩ := hexact (onGrid_natCast hle) (hcast.trans_lt two_pow_lt_ceiling)
    refine eq_of_value_eq hfin trivial ?_
    rw [hval, value_whole]
    cases negative <;> simp [withSign]

/-- **Zeros at the end of the digits do not matter.**

**Proof sketch.** The position of the first digit is the same, and so is the quotient that is
rounded. -/
theorem ofDecimal_mul_pow (negative : Bool) (s : ℕ) (e : ℤ) (j : ℕ) :
    ofDecimal negative (s * 10 ^ j) (e - j) = ofDecimal negative s e := by
  rcases Nat.eq_zero_or_pos s with rfl | hs
  · rw [Nat.zero_mul, ofDecimal, ofDecimal, if_pos rfl, if_pos rfl]
  · have hsize :
        ((Digits.ofNat 10 (s * 10 ^ j)).length : ℤ) + (e - j) = (Digits.ofNat 10 s).length + e := by
      rw [Digits.length_mul_pow hs]
      push_cast
      ring
    have hvalue : s * 10 ^ j * pow10 (e - j) * pow10 (-e) = s * pow10 e * pow10 (-(e - j)) := by
      have hne (f : ℤ) : ((pow10 f : ℕ) : ℚ) ≠ 0 := by exact_mod_cast (pow10_pos f).ne'
      have h1 := cast_decimal (s * 10 ^ j) (e - j)
      have h2 := cast_decimal s e
      have h3 : ((s * 10 ^ j : ℕ) : ℚ) * 10 ^ (e - j) = s * 10 ^ e := by
        rw [zpow_sub₀ (by norm_num), zpow_natCast]
        push_cast
        field_simp
      rw [h3, ← h2, div_eq_div_iff (hne _) (hne _)] at h1
      exact_mod_cast h1
    rw [ofDecimal_eq negative (by positivity), ofDecimal_eq negative hs, hsize,
      ofQuotient_congr negative (pow10_pos _) (pow10_pos _) hvalue]

/-- A magnitude on the grid that is not zero is not too small.

**Proof sketch.** The point of the grid is a positive multiple of a power of two whose exponent is
-1074 at least. -/
lemma OnGrid.two_pow_le {v : ℚ} (hv : OnGrid v) (hpos : 0 < v) : 2 ^ (-1074 : ℤ) ≤ v := by
  obtain ⟨s, p, -, hp, rfl⟩ := hv
  have hs : 1 ≤ s := by
    rcases Nat.eq_zero_or_pos s with rfl | hs
    · simp at hpos
    · exact hs
  have hs' : (1 : ℚ) ≤ s := by exact_mod_cast hs
  calc (2 : ℚ) ^ (-1074 : ℤ) ≤ 2 ^ p := zpow_le_zpow_right₀ one_le_two hp
    _ = 1 * 2 ^ p := (one_mul _).symm
    _ ≤ s * 2 ^ p := by gcongr

/-- The power of ten from which on decimals are read as an infinity is too great. -/
lemma two_mul_ceiling_le : 2 * ceiling ≤ 10 ^ (310 : ℤ) := by
  have h : 2 * 2 ^ 1024 ≤ 10 ^ 310 := by decide +kernel
  rw [ceiling]
  exact_mod_cast h

/-- The power of ten below which decimals are read as zero is too small. -/
lemma two_mul_le_two_pow : 2 * (10 : ℚ) ^ (-330 : ℤ) ≤ 2 ^ (-1074 : ℤ) := by
  have h : 2 * 2 ^ 1074 ≤ 10 ^ 330 := by decide +kernel
  have h' : (2 * 2 ^ 1074 : ℚ) ≤ 10 ^ 330 := by exact_mod_cast h
  rw [zpow_neg, zpow_neg, ← div_eq_mul_inv, div_le_iff₀ (by positivity), ← div_eq_inv_mul,
    le_div_iff₀ (by positivity)]
  exact_mod_cast h'

/-- **A decimal close to a binary64 number is read as that number.**

**Proof sketch.** The decimal is less than twice the number and more than half of it, so it is
neither out of range nor cut to zero. Then its quotient rounds to the number by
`ofQuotient_of_near`. -/
theorem ofDecimal_of_near {x : Number} (hx : x.IsFinite) {negative : Bool} {v : ℚ}
    (hxv : x.value = withSign negative v) (hv : OnGrid v) (hlt : v < ceiling) {s : ℕ} {e : ℤ}
    (h : |s * 10 ^ e - v| < v / 2 ^ 54) : ofDecimal negative s e = x := by
  have hpos : 0 < v := by
    have := (abs_nonneg _).trans_lt h
    linarith [div_mul_cancel₀ v (show (2 : ℚ) ^ 54 ≠ 0 by norm_num)]
  obtain ⟨h1, h2⟩ := abs_lt.1 h
  have hhalf : v / 2 ^ 54 ≤ v / 2 := by
    gcongr
    norm_num
  have hbelow : s * 10 ^ e < 2 * v := by linarith
  have hs : 0 < s := by
    rcases Nat.eq_zero_or_pos s with rfl | hs
    · rw [Nat.cast_zero, zero_mul] at h1
      linarith
    · exact hs
  obtain ⟨hlow, hhigh⟩ := Digits.cast_pow_length hs
  have hten : (10 : ℚ) ≠ 0 := by norm_num
  have hgreat : ¬ 310 < ((Digits.ofNat 10 s).length : ℤ) + e := by
    intro hc
    have hle : (10 : ℚ) ^ (310 : ℤ) ≤ s * 10 ^ e := by
      calc (10 : ℚ) ^ (310 : ℤ) ≤ 10 ^ ((Digits.ofNat 10 s).length - 1 + e : ℤ) :=
            zpow_le_zpow_right₀ (by norm_num) (by omega)
        _ = 10 ^ ((Digits.ofNat 10 s).length - 1 : ℤ) * 10 ^ e := zpow_add₀ hten _ _
        _ ≤ s * 10 ^ e := by gcongr
    exact absurd ((two_mul_ceiling_le.trans hle).trans_lt hbelow) (not_lt.2 (by linarith))
  have hsmall : ¬ ((Digits.ofNat 10 s).length : ℤ) + e < -330 := by
    intro hc
    have hle : (s * 10 ^ e : ℚ) ≤ 10 ^ (-330 : ℤ) := by
      calc (s * 10 ^ e : ℚ) ≤ 10 ^ ((Digits.ofNat 10 s).length : ℤ) * 10 ^ e := by gcongr
        _ = 10 ^ ((Digits.ofNat 10 s).length + e : ℤ) := (zpow_add₀ hten _ _).symm
        _ ≤ 10 ^ (-330 : ℤ) := zpow_le_zpow_right₀ (by norm_num) (by omega)
    linarith [two_mul_le_two_pow, hv.two_pow_le hpos]
  rw [ofDecimal_eq negative hs, if_neg hgreat, if_neg hsmall]
  refine ofQuotient_of_near hx hxv hv hlt (pow10_pos _) ?_
  rw [cast_decimal]
  exact h

/-! ## The search -/

/-- Rounding gives one of the two whole numbers around a quotient. -/
lemma roundDiv_eq_or (n d : ℕ) : roundDiv n d = n / d ∨ roundDiv n d = n / d + 1 := by
  unfold roundDiv
  extract_lets q r
  split_ifs
  · exact .inl rfl
  · exact .inr rfl
  · have := Nat.mod_lt q two_pos
    omega

/-- What is found on a grid reads back.

**Proof sketch.** What is found is one of the two neighbours that were tried, or the nearer one if
both read back, and that is one of the two. -/
lemma ofDecimal_of_neighbour? {num den s : ℕ} {e : ℤ} (h : neighbour? num den e = some s) :
    ofDecimal false s e = ofQuotient false num den := by
  unfold neighbour? at h
  extract_lets value n d low readsBack at h
  have hread {t : ℕ} (ht : readsBack t = true) : ofDecimal false t e = ofQuotient false num den :=
    beq_iff_eq.1 ht
  split at h
  case h_1 h0 h1 =>
    obtain rfl := Option.some.inj h
    rcases roundDiv_eq_or n d with hr | hr
    · exact hr ▸ hread h0
    · exact hr ▸ hread h1
  case h_2 h0 _ => exact Option.some.inj h ▸ hread h0
  case h_3 _ h1 => exact Option.some.inj h ▸ hread h1
  case h_4 => cases h

/-- Something is found on a grid if one of its two points around the quotient reads back.

**Proof sketch.** By the branches of `neighbour?`: it finds nothing only if neither point reads
back, and one of them does. -/
lemma isSome_neighbour? {num den : ℕ} {e : ℤ} {s : ℕ}
    (hs : s = num * pow10 (-e) / (den * pow10 e) ∨ s = num * pow10 (-e) / (den * pow10 e) + 1)
    (h : ofDecimal false s e = ofQuotient false num den) : (neighbour? num den e).isSome := by
  unfold neighbour?
  extract_lets value n d low readsBack
  have hread : readsBack s = true := beq_iff_eq.2 h
  split
  case h_1 | h_2 | h_3 => rfl
  case h_4 h0 h1 =>
    rcases hs with rfl | rfl
    · exact absurd (h0.symm.trans hread) nofun
    · exact absurd (h1.symm.trans hread) nofun

/-- **Seventeen digits read back.** One of the two points of a grid of seventeen digits around a
magnitude is so close that it is read as that magnitude.

**Proof sketch.** With seventeen digits the step of the decimal grid is at most `10 ^ -16` of the
magnitude, so the nearer of the two points around it is off by less than a part in `2 ^ 54`. By
`ofDecimal_of_near` that point reads back. -/
lemma isSome_neighbour?_seventeen {num den : ℕ} (hn : 0 < num) (hd : 0 < den)
    (hv : OnGrid (num / den)) (hlt : (num / den : ℚ) < ceiling) :
    (neighbour? num den (decimalPoint num den - 17)).isSome := by
  obtain ⟨hfin, hval⟩ := ofQuotient_of_onGrid false hn hd hv hlt
  obtain ⟨hpoint, -⟩ := decimalPoint_spec hn hd
  have hratio := cast_div_pow10 num den (decimalPoint num den - 17)
  have hstep : (10 : ℚ) ^ 16 * 10 ^ (decimalPoint num den - 17) ≤ num / den := by
    rw [← zpow_natCast, ← zpow_add₀ (by norm_num)]
    convert hpoint using 2
    push_cast
    ring
  generalize decimalPoint num den - 17 = e at hratio hstep ⊢
  have hg : (0 : ℚ) < 10 ^ e := by positivity
  have hden : 0 < den * pow10 e := Nat.mul_pos hd (pow10_pos e)
  have hlow : ((num * pow10 (-e) / (den * pow10 e) : ℕ) : ℚ) * 10 ^ e ≤ num / den := by
    rw [← le_div_iff₀ hg, ← hratio, le_div_iff₀ (by exact_mod_cast hden)]
    exact_mod_cast Nat.div_mul_le_self _ _
  have hhigh : (num / den : ℚ) < ((num * pow10 (-e) / (den * pow10 e) : ℕ) + 1) * 10 ^ e := by
    rw [← div_lt_iff₀ hg, ← hratio, div_lt_iff₀ (by exact_mod_cast hden)]
    exact_mod_cast Nat.mul_comm _ _ ▸ Nat.lt_mul_div_succ _ hden
  have hnear {t : ℕ} (ht : |t * 10 ^ e - (num / den : ℚ)| ≤ 10 ^ e / 2) :
      ofDecimal false t e = ofQuotient false num den := by
    refine ofDecimal_of_near hfin hval hv hlt (ht.trans_lt ?_)
    rw [div_lt_div_iff₀ two_pos (by positivity)]
    calc (10 : ℚ) ^ e * 2 ^ 54 < 10 ^ e * (10 ^ 16 * 2) := by
          gcongr
          norm_num
      _ = 10 ^ 16 * 10 ^ e * 2 := by ring
      _ ≤ num / den * 2 := by gcongr
  rcases le_total (num / den : ℚ) ((num * pow10 (-e) / (den * pow10 e) : ℕ) * 10 ^ e +
    10 ^ e / 2) with h | h
  · refine isSome_neighbour? (.inl rfl) (hnear ?_)
    rw [abs_le]
    constructor <;> linarith
  · refine isSome_neighbour? (.inr rfl) (hnear ?_)
    rw [abs_le]
    push_cast
    constructor <;> linarith

/-- **The search succeeds**, and what it finds reads back.

**Proof sketch.** The search goes through grids of up to seventeen digits and takes the first on
which a point reads back; by `isSome_neighbour?_seventeen` there is one on the last. What it finds
is not zero, since the quotient is not. -/
theorem shortestDecimal_spec {num den : ℕ} (hn : 0 < num) (hd : 0 < den) (hv : OnGrid (num / den))
    (hlt : (num / den : ℚ) < ceiling) :
    0 < (shortestDecimal num den).1 ∧
      ofDecimal false (shortestDecimal num den).1 (shortestDecimal num den).2 =
        ofQuotient false num den := by
  have hread : ofDecimal false (shortestDecimal num den).1 (shortestDecimal num den).2 =
      ofQuotient false num den := by
    unfold shortestDecimal
    extract_lets point grid
    cases hf : (List.range 17).findSome? fun k => (neighbour? num den (grid k)).map (·, grid k) with
    | none =>
      have hlast := List.findSome?_eq_none_iff.1 hf 16 (by decide)
      obtain ⟨s, hs⟩ := Option.isSome_iff_exists.1 (isSome_neighbour?_seventeen hn hd hv hlt)
      have hgrid : grid 16 = decimalPoint num den - 17 := rfl
      rw [hgrid, hs] at hlast
      cases hlast
    | some r =>
      obtain ⟨k, -, hk⟩ := List.exists_of_findSome?_eq_some hf
      obtain ⟨s, hs, rfl⟩ := Option.map_eq_some_iff.1 hk
      exact ofDecimal_of_neighbour? hs
  refine ⟨Nat.pos_of_ne_zero fun hz => ?_, hread⟩
  have hval := (ofQuotient_of_onGrid false hn hd hv hlt).2
  rw [hz, ofDecimal, if_pos rfl] at hread
  rw [← hread, value_whole, Int.cast_zero] at hval
  have hpos : (0 : ℚ) < num / den := by positivity
  exact absurd hval.symm hpos.ne'

/-! ## Zeros at the end -/

/-- **The digits without zeros at their end** are a numeral, and read back as the quotient that they
were made for.

**Proof sketch.** The zeros that are dropped are a power of ten, and by `ofDecimal_mul_pow` they do
not matter for what is read. -/
theorem shortestDigits_spec {num den : ℕ} (hn : 0 < num) (hd : 0 < den) (hv : OnGrid (num / den))
    (hlt : (num / den : ℚ) < ceiling) :
    Digits.IsNumeral (shortestDigits num den).1 ∧
      ofDecimal false (Digits.value 10 (shortestDigits num den).1)
        ((shortestDigits num den).2 - (shortestDigits num den).1.length) =
          ofQuotient false num den := by
  obtain ⟨hs, hread⟩ := shortestDecimal_spec hn hd hv hlt
  unfold shortestDigits
  generalize shortestDecimal num den = r at hs hread
  obtain ⟨s, e⟩ := r
  obtain ⟨j, hj⟩ := Digits.exists_append_replicate (Digits.ofNat 10 s)
  dsimp only at hs hread ⊢
  generalize ((Digits.ofNat 10 s).reverse.dropWhile (· == 0)).reverse = kept at hj ⊢
  refine ⟨(Digits.isNumeral_ofNat hs).of_append_replicate hj, ?_⟩
  have hvalue : Digits.value 10 kept * 10 ^ j = s := by
    rw [← Digits.value_append_replicate, ← hj, Digits.value_ofNat]
  have hlen : (Digits.ofNat 10 s).length = kept.length + j := by
    rw [hj, List.length_append, List.length_replicate]
  rw [← hread, ← hvalue, ← ofDecimal_mul_pow false (Digits.value 10 kept) _ j, hvalue, hlen]
  congr 1
  push_cast
  ring

/-! ## Signs -/

/-- A quotient with a sign is rounded like the one without.

**Proof sketch.** Nothing is its own opposite. Otherwise both are the rounded magnitude with a sign,
or both are infinite if that is too large. -/
lemma ofQuotient_true (num : ℕ) {den : ℕ} (hd : 0 < den) :
    ofQuotient true num den = (ofQuotient false num den).neg := by
  rcases Nat.eq_zero_or_pos num with rfl | hn
  · rfl
  · rcases lt_or_ge (rounded num den) ceiling with hlt | hge
    · obtain ⟨hfin, hval⟩ := ofQuotient_of_rounded_lt true hn hd hlt
      obtain ⟨hfin', hval'⟩ := ofQuotient_of_rounded_lt false hn hd hlt
      refine eq_of_value_eq hfin (isFinite_neg.2 hfin') ?_
      rw [hval, value_neg, hval']
      rfl
    · rw [ofQuotient_of_le_rounded true hn hd hge, ofQuotient_of_le_rounded false hn hd hge]
      rfl

/-- Digits with a sign are read like those without. -/
lemma ofDecimal_true (s : ℕ) (e : ℤ) : ofDecimal true s e = (ofDecimal false s e).neg := by
  rcases Nat.eq_zero_or_pos s with rfl | hs
  · rw [ofDecimal, ofDecimal, if_pos rfl, if_pos rfl]
    rfl
  · rw [ofDecimal_eq true hs, ofDecimal_eq false hs, ofQuotient_true _ (pow10_pos _)]
    split_ifs <;> rfl

/-- **The fewest digits read back** as the number that they were made for, whatever its sign.

**Proof sketch.** The number is the quotient itself, as its magnitude is on the grid. The digits
read back as that by `shortestDigits_spec`, and with a sign in front as its opposite. -/
theorem ofDecimal_shortestDigits {x : Number} (hx : x.IsFinite) (hb : x.IsBinary64)
    {negative : Bool} {num den : ℕ}
    (hn : 0 < num) (hd : 0 < den) (hxv : x.value = withSign negative (num / den)) :
    Digits.IsNumeral (shortestDigits num den).1 ∧
      ofDecimal negative (Digits.value 10 (shortestDigits num den).1)
        ((shortestDigits num den).2 - (shortestDigits num den).1.length) = x := by
  obtain ⟨hv, hlt⟩ := hb hx
  rw [hxv, abs_withSign negative (by positivity)] at hv hlt
  obtain ⟨hnum, hread⟩ := shortestDigits_spec hn hd hv hlt
  have hself : ofQuotient negative num den = x := by
    obtain ⟨hfin, hval⟩ := ofQuotient_of_onGrid negative hn hd hv hlt
    exact eq_of_value_eq hfin hx (hval.trans hxv.symm)
  refine ⟨hnum, ?_⟩
  cases negative with
  | false => rw [hread, hself]
  | true => rw [ofDecimal_true, hread, ← ofQuotient_true num hd, hself]

/-! ## Whole numbers in binary64 -/

/-- A whole number that binary64 holds exactly is a binary64 number. -/
lemma isBinary64_whole {n : ℤ} (h : n.natAbs ≤ exactLimit) : (whole n).IsBinary64 := by
  intro _
  have habs : |(n : ℚ)| = n.natAbs := by rw [Nat.cast_natAbs, Int.cast_abs]
  have hcast : (n.natAbs : ℚ) ≤ 2 ^ 53 := by exact_mod_cast h
  rw [value_whole, habs]
  exact ⟨onGrid_natCast h, hcast.trans_lt two_pow_lt_ceiling⟩

/-- What a whole number is rounded to is a binary64 number. -/
lemma isBinary64_ofInt (n : ℤ) : (ofInt n).IsBinary64 := by
  rw [ofInt, round]
  split_ifs with hle
  · exact isBinary64_whole hle.2
  · exact isBinary64_ofQuotient _ _ one_pos

end Number

end DebugWire
