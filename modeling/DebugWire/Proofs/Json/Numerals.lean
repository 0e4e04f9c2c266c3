import DebugWire.Proofs.Json.RoundTrip
import DebugWire.Proofs.Number.Decimal

set_option relaxedAutoImplicit false
set_option autoImplicit false

/-!
# Reading printed numbers back

The decimal text of a number, with a point, with an exponent or with neither, is a number of JSON,
and it reads back as the number that was printed if that is one of binary64.

## Main results

* `DebugWire.Json.readNumber?_layout` — digits laid out with a point read back as these digits.
* `DebugWire.Json.readNumber?_chars_of_isFinite` — every finite number of binary64 reads back.
-/

namespace DebugWire.Json

open Number (signed layout ofDecimal)

/-! ## Parts of a number -/

/-- The digits of a numeral are read as the digits in front of the point. -/
lemma readInteger?_map {ds : List ℕ} (h : Digits.IsNumeral ds) {rest : List Char}
    (hr : ∀ c ∈ rest.head?, ¬ ('0' ≤ c ∧ c ≤ '9')) :
    readInteger? (ds.map Nat.digitChar ++ rest) = some (ds, rest) := by
  obtain ⟨⟨d, ds', rfl, hd⟩, hlt⟩ := h
  rw [readInteger?, spanDigits_map hlt hr]
  dsimp only
  split
  case h_1 hnil => cases hnil
  case h_2 hzero => exact absurd (List.cons.inj hzero).1 hd
  case h_3 => rfl

/-- A lone zero in front of the point is a number without leading zeros. -/
lemma readInteger?_zero {rest : List Char} (hr : ∀ c ∈ rest.head?, ¬ ('0' ≤ c ∧ c ≤ '9')) :
    readInteger? ('0' :: rest) = some ([0], rest) := by
  have hlt : ∀ d ∈ [0], d < 10 := by decide
  have hspan : spanDigits ('0' :: rest) = ([0], rest) := spanDigits_map hlt hr
  rw [readInteger?, hspan]
  rfl

/-- The digits behind a point are read up to the first character that is none. -/
lemma readFraction?_map {ds : List ℕ} (hne : ds ≠ []) (h : ∀ d ∈ ds, d < 10) {rest : List Char}
    (hr : ∀ c ∈ rest.head?, ¬ ('0' ≤ c ∧ c ≤ '9')) :
    readFraction? ('.' :: (ds.map Nat.digitChar ++ rest)) = some (ds, rest) := by
  rw [readFraction?, spanDigits_map h hr]
  cases ds with
  | nil => exact absurd rfl hne
  | cons d ds => rfl

/-- Without a point there is no fraction, and nothing is taken. -/
lemma readFraction?_of_ne {rest : List Char} (h : ∀ c ∈ rest.head?, c ≠ '.') :
    readFraction? rest = some ([], rest) := by
  cases rest with
  | nil => rfl
  | cons c rest =>
    unfold readFraction?
    split
    case h_1 hc => exact absurd (List.cons.inj hc).1 (h c rfl)
    case h_2 => rfl

/-- An exponent with its sign.

**Proof sketch.** By cases on the sign. The digits are spanned up to the rest, and their value is
the size of the exponent. -/
lemma readExponent?_text (e : ℤ) {rest : List Char} (hr : NumberEnds rest) :
    readExponent? ('e' :: (if 0 ≤ e then '+' else '-') :: (Digits.text 10 e.natAbs ++ rest)) =
      some (e, rest) := by
  have hne : (Digits.ofNat 10 e.natAbs).isEmpty = false := by
    rw [List.isEmpty_eq_false_iff]
    exact Digits.ofNat_ne_nil _ _
  split_ifs with he
  · have hsign : readSign ('+' :: (Digits.text 10 e.natAbs ++ rest)) =
        (false, Digits.text 10 e.natAbs ++ rest) := rfl
    simp only [readExponent?, true_or, if_true, hsign, spanDigits_text hr, hne, Digits.value_ofNat,
      Bool.false_eq_true, if_false]
    rw [Int.natAbs_of_nonneg he]
  · have hsign : readSign ('-' :: (Digits.text 10 e.natAbs ++ rest)) =
        (true, Digits.text 10 e.natAbs ++ rest) := rfl
    simp only [readExponent?, true_or, if_true, hsign, spanDigits_text hr, hne, Digits.value_ofNat,
      Bool.false_eq_true, if_false]
    congr 2
    omega

/-! ## Layouts -/

/-- What follows a number does not go on with its digits. -/
lemma NumberEnds.not_digit {rest : List Char} (h : NumberEnds rest) :
    ∀ c ∈ rest.head?, ¬ ('0' ≤ c ∧ c ≤ '9') :=
  fun c hc => (h c hc).1

/-- Digits filled up with zeros.

**Proof sketch.** The zeros are digits like the others, so this is a numeral without a point, whose
value is that of the digits times a power of ten. -/
lemma readNumber?_padded {ds : List ℕ} (h : Digits.IsNumeral ds) (negative : Bool) (j : ℕ)
    {rest : List Char} (hr : NumberEnds rest) :
    readNumber? (signed negative (ds.map Nat.digitChar ++ List.replicate j '0' ++ rest)) =
      some (ofDecimal negative (Digits.value 10 ds) j, rest) := by
  have hzeros : ds.map Nat.digitChar ++ List.replicate j '0' =
      (ds ++ List.replicate j 0).map Nat.digitChar := by
    rw [List.map_append, List.map_replicate]
    rfl
  have hnum : Digits.IsNumeral (ds ++ List.replicate j 0) := by
    obtain ⟨⟨d, ds', rfl, hd⟩, hlt⟩ := h
    refine ⟨⟨d, _, rfl, hd⟩, fun e he => ?_⟩
    rcases List.mem_append.1 he with he | he
    · exact hlt e he
    · rw [List.eq_of_mem_replicate he]
      decide
  rw [hzeros,
    readNumber?_signed negative (readInteger?_map hnum hr.not_digit)
      (readFraction?_of_numberEnds hr)
    (readExponent?_of_numberEnds hr), List.append_nil, Digits.value_append_replicate,
    ← Number.ofDecimal_mul_pow negative (Digits.value 10 ds) j j, List.length_nil, sub_self]
  rfl

/-- Digits with a point between them are the number that all of them make up, with as many places
behind the point. -/
lemma readNumber?_pointed {whole part : List ℕ} (h : Digits.IsNumeral whole) (hne : part ≠ [])
    (hp : ∀ d ∈ part, d < 10) (negative : Bool) {rest : List Char} (hr : NumberEnds rest) :
    readNumber?
      (signed negative (whole.map Nat.digitChar ++ '.' :: (part.map Nat.digitChar ++ rest))) =
      some (ofDecimal negative (Digits.value 10 (whole ++ part)) (0 - part.length), rest) :=
  readNumber?_signed negative (readInteger?_map h (by rintro _ ⟨⟩; decide))
    (readFraction?_map hne hp hr.not_digit)
    (readExponent?_of_numberEnds hr)

/-- Digits behind a zero, a point and further zeros.

**Proof sketch.** The zeros behind the point are digits of the fraction. They add nothing to the
value, but they count for the place of the point. -/
lemma readNumber?_small {ds : List ℕ} (h : Digits.IsNumeral ds) (negative : Bool) (j : ℕ)
    {rest : List Char} (hr : NumberEnds rest) :
    readNumber?
      (signed negative ('0' :: '.' :: (List.replicate j '0' ++ ds.map Nat.digitChar ++ rest))) =
      some (ofDecimal negative (Digits.value 10 ds) (0 - (j + ds.length)), rest) := by
  have hzeros : List.replicate j '0' ++ ds.map Nat.digitChar =
      (List.replicate j 0 ++ ds).map Nat.digitChar := by
    rw [List.map_append, List.map_replicate]
    rfl
  have hne : List.replicate j 0 ++ ds ≠ [] := by
    obtain ⟨d, ds', rfl, -⟩ := h.head
    exact List.append_ne_nil_of_right_ne_nil _ (List.cons_ne_nil _ _)
  have hlt : ∀ d ∈ List.replicate j 0 ++ ds, d < 10 := fun d hd => by
    rcases List.mem_append.1 hd with hd | hd
    · rw [List.eq_of_mem_replicate hd]
      decide
    · exact h.lt d hd
  have hvalue : Digits.value 10 ([0] ++ (List.replicate j 0 ++ ds)) = Digits.value 10 ds :=
    Digits.value_replicate_append 10 (j + 1) ds
  rw [hzeros, readNumber?_signed negative (readInteger?_zero (by rintro _ ⟨⟩; decide))
    (readFraction?_map hne hlt hr.not_digit) (readExponent?_of_numberEnds hr), hvalue,
      List.length_append,
    List.length_replicate, Nat.cast_add]

/-- Digits with one of them in front of the point, and an exponent.

**Proof sketch.** With one digit there is no point, and the exponent follows at once. With more of
them the first one is the integer part and the others are the fraction. -/
lemma readNumber?_scientific {ds : List ℕ} (h : Digits.IsNumeral ds) (negative : Bool) (e : ℤ)
    {rest : List Char} (hr : NumberEnds rest) :
    readNumber? (signed negative ((match ds.map Nat.digitChar with
      | d :: e :: ds => d :: '.' :: e :: ds
      | ds => ds) ++ 'e' :: (if 0 ≤ e then '+' else '-') :: (Digits.text 10 e.natAbs ++ rest))) =
      some (ofDecimal negative (Digits.value 10 ds) (e + 1 - ds.length), rest) := by
  have hexp := readExponent?_text e hr
  generalize hmore : 'e' :: (if 0 ≤ e then '+' else '-') :: (Digits.text 10 e.natAbs ++ rest) =
    more at hexp ⊢
  have hhead : ∀ c ∈ more.head?, ¬ ('0' ≤ c ∧ c ≤ '9') ∧ c ≠ '.' := by
    subst hmore
    rintro _ ⟨⟩
    decide
  obtain ⟨⟨d, ds', rfl, hd⟩, hlt⟩ := h
  have hone : Digits.IsNumeral [d] :=
    ⟨⟨d, [], rfl, hd⟩, fun f hf => hlt f (List.mem_singleton.1 hf ▸ List.mem_cons_self)⟩
  cases ds' with
  | nil =>
    have hread := readNumber?_signed negative (readInteger?_map hone fun c hc => (hhead c hc).1)
      (readFraction?_of_ne fun c hc => (hhead c hc).2) hexp
    have hlen : e - ([] : List ℕ).length = e + 1 - [d].length := by
      rw [List.length_nil, List.length_singleton]
      omega
    rw [hlen, List.append_nil] at hread
    exact hread
  | cons d' ds' =>
    have hpart :=
      readFraction?_map (List.cons_ne_nil d' ds') (fun f hf => hlt f (List.mem_cons_of_mem _ hf))
      fun c hc => (hhead c hc).1
    have hread :=
      readNumber?_signed negative (readInteger?_map hone (by rintro _ ⟨⟩; decide)) hpart hexp
    have hlen : e - (d' :: ds').length = e + 1 - (d :: d' :: ds').length := by
      rw [List.length_cons (a := d), Nat.cast_add, Nat.cast_one]
      omega
    rw [hlen] at hread
    exact hread

/-- **Digits laid out with a point** read back as these digits with the point at its place.

**Proof sketch.** By cases on the place of the point, as in `layout`: behind the digits, among them,
in front of them, or far away from them. The four lemmas above read the four forms, and it remains
to see that the exponents agree. -/
theorem readNumber?_layout {ds : List ℕ} (h : Digits.IsNumeral ds) (point : ℤ) (negative : Bool)
    {rest : List Char} (hr : NumberEnds rest) :
    readNumber? (signed negative (layout (ds.map Nat.digitChar) point) ++ rest) =
      some (ofDecimal negative (Digits.value 10 ds) (point - ds.length), rest) := by
  rw [signed_append]
  unfold layout
  dsimp only
  rw [List.length_map]
  by_cases hwhole : ds.length ≤ point ∧ point ≤ 21
  · have hread := readNumber?_padded h negative (point - ds.length).toNat hr
    rw [Int.toNat_of_nonneg (by omega)] at hread
    rw [if_pos hwhole]
    exact hread
  by_cases hpoint : 0 < point ∧ point ≤ 21
  · obtain ⟨j, rfl⟩ := Int.eq_ofNat_of_zero_le hpoint.1.le
    have hj : j < ds.length := by omega
    have htake : Digits.IsNumeral (ds.take j) := by
      obtain ⟨⟨d, ds', rfl, hd⟩, hlt⟩ := h
      obtain ⟨i, rfl⟩ := Nat.exists_eq_succ_of_ne_zero (n := j) (by omega)
      exact ⟨⟨d, ds'.take i, rfl, hd⟩, fun e he => hlt e (List.mem_of_mem_take he)⟩
    have hdrop : ds.drop j ≠ [] := by
      rw [Ne, List.drop_eq_nil_iff]
      omega
    have hread :=
      readNumber?_pointed htake hdrop (fun d hd => h.lt d (List.mem_of_mem_drop hd)) negative hr
    have hlen : (0 - ((ds.drop j).length : ℤ)) = j - ds.length := by
      rw [List.length_drop]
      omega
    rw [List.take_append_drop, hlen] at hread
    rw [if_neg hwhole, if_pos hpoint, Int.toNat_natCast, ← List.map_take, ← List.map_drop,
      List.append_assoc]
    exact hread
  by_cases hsmall : -6 < point ∧ point ≤ 0
  · have hread := readNumber?_small h negative (-point).toNat hr
    have hlen : (0 - ((-point).toNat + ds.length : ℤ)) = point - ds.length := by omega
    rw [hlen] at hread
    rw [if_neg hwhole, if_neg hpoint, if_pos hsmall]
    exact hread
  · have hread := readNumber?_scientific h negative (point - 1) hr
    rw [sub_add_cancel] at hread
    rw [if_neg hwhole, if_neg hpoint, if_neg hsmall, List.append_assoc]
    exact hread

/-! ## Numbers -/

/-- The text of a number that is not a whole number held exactly is that of its fewest digits.

**Proof sketch.** A number that is not whole is a fraction over a power of two that is not one, and
a whole number that is not held exactly is above the limit. In both cases the text is made from the
shortest digits. -/
lemma exists_chars_eq {x : Number} (hx : x.IsFinite)
    (h : ∀ z : ℤ, z.natAbs ≤ Number.exactLimit → x ≠ .whole z) :
    ∃ (negative : Bool) (num den : ℕ), 0 < num ∧ 0 < den ∧
    x.value = Number.withSign negative (num / den) ∧
      x.chars = signed negative (layout ((Number.shortestDigits num den).1.map Nat.digitChar)
        (Number.shortestDigits num den).2) := by
  have hsign (m : ℤ) (q : ℚ) : Number.withSign (m < 0) ((m.natAbs : ℚ) / q) = m / q := by
    rw [Number.withSign]
    by_cases hm : m < 0
    · rw [if_pos (decide_eq_true hm), Nat.cast_natAbs, abs_of_neg hm]
      push_cast
      rw [neg_div, neg_neg]
    · rw [if_neg (by simpa using hm), Nat.cast_natAbs, abs_of_nonneg (not_lt.1 hm)]
  cases x with
  | infinite negative => exact hx.elim
  | nan => exact hx.elim
  | whole z =>
    have hz : ¬ z.natAbs ≤ Number.exactLimit := fun hle => h z hle rfl
    refine ⟨z < 0, z.natAbs, 1, by omega, one_pos, ?_, ?_⟩
    · rw [Nat.cast_one, hsign, div_one, Number.value_whole]
    · rw [Number.chars, Number.magnitudeText, if_neg fun hc => hz hc.2]
  | fraction m k odd =>
    refine ⟨m < 0, m.natAbs, Number.twoPow (k + 1), by omega, Nat.two_pow_pos _, ?_, ?_⟩
    · rw [hsign, Number.cast_twoPow, Number.value_fraction]
    · have hone : Number.twoPow (k + 1) ≠ 1 := by
        have : Number.twoPow (k + 1) = 2 ^ k * 2 := rfl
        omega
      rw [Number.chars, Number.magnitudeText, if_neg fun hc => hone hc.1]

/-- **Every finite number of binary64 reads back** from its shortest decimal digits, whatever
follows that does not go on with the number. -/
theorem readNumber?_chars_of_isFinite {x : Number} (hx : x.IsFinite) (hb : x.IsBinary64)
    {rest : List Char} (hr : NumberEnds rest) : readNumber? (x.chars ++ rest) = some (x, rest) := by
  by_cases hexact : ∃ z : ℤ, z.natAbs ≤ Number.exactLimit ∧ x = .whole z
  · obtain ⟨z, hz, rfl⟩ := hexact
    exact readNumber?_chars hz hr
  · obtain ⟨negative, num, den, hn, hd, hxv, hchars⟩ :=
      exists_chars_eq hx fun z hz hxz => hexact ⟨z, hz, hxz⟩
    obtain ⟨hnum, hread⟩ := Number.ofDecimal_shortestDigits hx hb hn hd hxv
    rw [hchars, readNumber?_layout hnum _ negative hr, hread]

end DebugWire.Json
