set_option autoImplicit false

/-!
# Binary64 numbers

The numbers of the wire tools are IEEE binary64 values. They are kept here as exact values: a whole
number, a dyadic fraction, an infinity, or no number at all. The two zeros are one value, because
nothing that is printed or compared tells them apart.

Arithmetic is exact arithmetic followed by one rounding to the nearest binary64 value, a tie going
to the even significand. A whole number of magnitude at most `2 ^ 53` is a binary64 value already,
so rounding leaves it alone.

## Main definitions

* `DebugWire.Number` — the type of numbers.
* `DebugWire.Number.ofQuotient` — a quotient of naturals rounded to binary64.
* `DebugWire.Number.add`, `DebugWire.Number.sub` — rounded sum and difference.
* `DebugWire.Number.lt`, `DebugWire.Number.le` — the order, in which `nan` compares with nothing.
* `DebugWire.Number.isWithin` — being a whole number in an interval from `0`.
-/

namespace DebugWire

/-- A binary64 number, as the exact value that it stands for. -/
inductive Number where
  /-- The whole number `n`. -/
  | whole (n : Int)
  /-- The proper fraction `m / 2 ^ (k + 1)` in lowest terms. -/
  | fraction (m : Int) (k : Nat) (odd : m % 2 = 1)
  /-- Positive or negative infinity. -/
  | infinite (negative : Bool)
  /-- The result of an operation without a value. -/
  | nan
  deriving DecidableEq

namespace Number

instance : Inhabited Number := ⟨whole 0⟩

instance (n : Nat) : OfNat Number n := ⟨whole n⟩

instance : Coe Nat Number := ⟨fun n => whole n⟩

/-! ## Powers of two -/

/-- Two to a natural exponent. -/
def twoPow (k : Nat) : Nat := Nat.pow 2 k

/-- The power of two whose exponent is zero is one. -/
@[simp]
theorem twoPow_zero : twoPow 0 = 1 := rfl

/-- Two to the power of 53. Up to this magnitude every whole number is a binary64 value. -/
def exactLimit : Nat := 9007199254740992

/-! ## Parts of a number -/

/-- The numerator over `2 ^ scale`; `0` where there is no finite value. -/
def numerator : Number → Int
  | whole n => n
  | fraction m _ _ => m
  | _ => 0

/-- The exponent of the power of two under the numerator. -/
def scale : Number → Nat
  | fraction _ k _ => k + 1
  | _ => 0

/-- Whether the number is finite and whole. -/
def isWhole : Number → Bool
  | whole _ => true
  | _ => false

/-- Whether the number is a whole number from `0` to `limit`. -/
def isWithin (limit : Nat) : Number → Bool
  | whole n => 0 ≤ n && n ≤ limit
  | _ => false

/-- The natural number from `0` to `limit` that the number is, if it is one. -/
def within? (limit : Nat) : Number → Option Nat
  | whole n => if 0 ≤ n ∧ n ≤ limit then some n.toNat else none
  | _ => none

/-- The nearest whole number towards zero; `none` for an infinity, `0` for `nan`. -/
def truncate : Number → Option Int
  | whole n => some n
  | fraction m k _ => some (m.tdiv (twoPow (k + 1)))
  | infinite _ => none
  | nan => some 0

/-- The low eight bits of the number without its fraction, `0` where it has no finite value. -/
def lowByte (x : Number) : UInt8 :=
  match x.truncate with
  | some n => UInt8.ofNat (n % 256).toNat
  | none => 0

/-! ## Rounding -/

/-- The whole number nearest to `num / den`, the even one of two equally near. -/
def roundDiv (num den : Nat) : Nat :=
  let q := num / den
  let r := num % den
  if 2 * r < den then q
  else if den < 2 * r then q + 1
  else q + q % 2

/-- The power of two by its exponent, as far as the exponent is not negative. -/
def pow2 (e : Int) : Nat := twoPow e.toNat

/-- The greatest `e` with `2 ^ e ≤ num / den`, for positive `num` and `den`. -/
def binaryExponent (num den : Nat) : Int :=
  let e : Int := (num.log2 : Int) - den.log2
  if num * pow2 (-e) < den * pow2 e then e - 1 else e

/-- The exponent of the last binary place that binary64 keeps of a value of binary exponent `e`. -/
def lastPlace (e : Int) : Int := max (e - 52) (-1074)

/-- The number `m / 2 ^ k`, brought to lowest terms. -/
def ofDyadic (m : Int) : Nat → Number
  | 0 => whole m
  | k + 1 =>
    if odd : m % 2 = 1 then fraction m k odd
    else ofDyadic (m / 2) k

/-- The quotient `num / den` rounded to binary64, with the given sign. -/
def ofQuotient (negative : Bool) (num den : Nat) : Number :=
  if num = 0 then whole 0
  else
    let place := lastPlace (binaryExponent num den)
    let significand := roundDiv (num * pow2 (-place)) (den * pow2 place)
    let signed : Int := if negative then -(significand : Int) else significand
    if significand * pow2 place ≥ twoPow 1024 then infinite negative
    else ofDyadic (signed * (pow2 place : Int)) (-place).toNat

/-- The value `m / 2 ^ k` rounded to binary64. -/
def round (m : Int) (k : Nat) : Number :=
  if k = 0 ∧ m.natAbs ≤ exactLimit then whole m
  else ofQuotient (m < 0) m.natAbs (twoPow k)

/-- A whole number rounded to binary64. -/
def ofInt (n : Int) : Number := round n 0

/-! ## Arithmetic -/

/-- The number with the other sign. -/
def neg : Number → Number
  | whole n => whole (-n)
  | fraction m k odd => fraction (-m) k (by omega)
  | infinite s => infinite !s
  | nan => nan

/-- The rounded sum. Infinities of opposite signs have no sum. -/
def add : Number → Number → Number
  | nan, _ => nan
  | _, nan => nan
  | infinite s, infinite t => if s = t then infinite s else nan
  | infinite s, _ => infinite s
  | _, infinite t => infinite t
  | x, y => round (x.numerator * twoPow y.scale + y.numerator * twoPow x.scale) (x.scale + y.scale)

/-- The rounded difference. -/
def sub (x y : Number) : Number := x.add y.neg

instance : Add Number := ⟨add⟩
instance : Sub Number := ⟨sub⟩
instance : Neg Number := ⟨neg⟩

/-! ## Order -/

/-- Strictly less; false when either side is `nan`. -/
def lt : Number → Number → Bool
  | nan, _ => false
  | _, nan => false
  | infinite s, infinite t => s && !t
  | infinite s, _ => s
  | _, infinite t => !t
  | x, y => x.numerator * twoPow y.scale < y.numerator * twoPow x.scale

/-- Less or equal; false when either side is `nan`. -/
def le : Number → Number → Bool
  | nan, _ => false
  | _, nan => false
  | infinite s, infinite t => s || !t
  | infinite s, _ => s
  | _, infinite t => !t
  | x, y => x.numerator * twoPow y.scale ≤ y.numerator * twoPow x.scale

/-- Whether the number is below zero. -/
def isNegative (x : Number) : Bool := x.lt (whole 0)

/-! ## Whole numbers -/

/-- What `within?` finds is within the limit, so it can be used as an address or a byte without
another check. -/
theorem le_of_within? {limit n : Nat} {x : Number} (h : x.within? limit = some n) : n ≤ limit := by
  cases x with
  | whole m =>
    rw [within?, Option.ite_none_right_eq_some] at h
    obtain ⟨⟨_, le⟩, eq⟩ := h
    have := Option.some.inj eq
    omega
  | fraction | infinite | nan => cases h

/-- A whole number is within a limit exactly if it lies between zero and that limit. -/
@[simp]
theorem isWithin_whole (limit : Nat) (n : Int) :
    (whole n).isWithin limit = true ↔ 0 ≤ n ∧ n ≤ limit := by
  simp [isWithin]

/-- A whole number that is exactly represented is rounded to itself. -/
theorem round_whole {n : Int} (h : n.natAbs ≤ exactLimit) : round n 0 = whole n := by
  rw [round, if_pos ⟨rfl, h⟩]

/-- The sum of two whole numbers is exact up to the limit. -/
theorem whole_add_whole {a b : Int} (h : (a + b).natAbs ≤ exactLimit) :
    whole a + whole b = whole (a + b) := by
  show add (whole a) (whole b) = _
  simp only [add, numerator, scale, Nat.add_zero]
  simpa using round_whole (n := a + b) h

/-- The difference of two whole numbers is exact up to the limit. -/
theorem whole_sub_whole {a b : Int} (h : (a - b).natAbs ≤ exactLimit) :
    whole a - whole b = whole (a - b) := by
  show add (whole a) (neg (whole b)) = _
  rw [neg, Int.sub_eq_add_neg]
  exact whole_add_whole (by rwa [← Int.sub_eq_add_neg])

/-- Whole numbers are compared as the integers that they stand for. -/
@[simp]
theorem lt_whole (a b : Int) : (whole a).lt (whole b) = decide (a < b) := by
  simp [lt, numerator, scale]

/-- Whole numbers are compared as the integers that they stand for, also when they may be equal. -/
@[simp]
theorem le_whole (a b : Int) : (whole a).le (whole b) = decide (a ≤ b) := by
  simp [le, numerator, scale]

end Number

end DebugWire
