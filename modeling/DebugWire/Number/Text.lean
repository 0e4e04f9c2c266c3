import DebugWire.Number.Basic
import DebugWire.Number.Digits

set_option autoImplicit false

/-!
# Numbers as text

A number is written in decimal with the fewest digits that read back as it: positionally as long as
its decimal point lies between six zeros in front and twenty-one digits, and with an exponent
outside of that. In base sixteen it is written exactly, a negative one as a sign and its magnitude.

## Main definitions

* `DebugWire.Number.shortestDigits` — the fewest decimal digits that read back as a number.
* `DebugWire.Number.text` — the decimal text of a number.
* `DebugWire.Number.hex` — the text of a number in base sixteen.
* `DebugWire.Number.ofDecimal` — the number nearest to digits with a decimal exponent.
-/

namespace DebugWire.Number

/-! ## Reading -/

/-- The power of ten by its exponent, as far as the exponent is not negative. -/
def pow10 (e : Int) : Nat := Nat.pow 10 e.toNat

/-- The number nearest to `digits * 10 ^ exponent`. Exponents far outside the range of binary64 are
decided by the position of the first digit alone. -/
def ofDecimal (negative : Bool) (digits : Nat) (exponent : Int) : Number :=
  let size : Int := (Digits.ofNat 10 digits).length
  if digits = 0 then whole 0
  else if exponent = 0 ∧
    digits ≤ exactLimit then whole (if negative then -(digits : Int) else digits)
  else if 310 < size + exponent then infinite negative
  else if size + exponent < -330 then whole 0
  else ofQuotient negative (digits * pow10 exponent) (pow10 (-exponent))

/-! ## Fewest digits -/

/-- The `n` with `10 ^ (n - 1) ≤ num / den < 10 ^ n`, for positive `num` and `den`. -/
def decimalPoint (num den : Nat) : Int :=
  let n : Int := ((Digits.ofNat 10 num).length : Int) - (Digits.ofNat 10 den).length
  if den * pow10 n ≤ num * pow10 (-n) then n + 1 else n

/-- The nearest of the two neighbours of `num / den` on the grid of multiples of `10 ^ e` that read
back as `num / den` rounded; the even one of two equally near. -/
def neighbour? (num den : Nat) (e : Int) : Option Nat :=
  let value := ofQuotient false num den
  let n := num * pow10 (-e)
  let d := den * pow10 e
  let low := n / d
  let readsBack (s : Nat) : Bool := ofDecimal false s e == value
  match readsBack low, readsBack (low + 1) with
  | true, true => some (roundDiv n d)
  | true, false => some low
  | false, true => some (low + 1)
  | false, false => none

/-- The digits `s` and the exponent `e` of the fewest-digit decimal `s * 10 ^ e` that reads back as
the positive quotient `num / den` rounded. Seventeen digits always read back. -/
def shortestDecimal (num den : Nat) : Nat × Int :=
  let point := decimalPoint num den
  let grid (k : Nat) : Int := point - (k + 1)
  ((List.range 17).findSome? fun k => (neighbour? num den (grid k)).map (·, grid k)).getD (0, 0)

/-- The digits of `shortestDecimal` without zeros at the end, and the place of the decimal point:
digits `s` with the point at `n` stand for `0.s * 10 ^ n`. -/
def shortestDigits (num den : Nat) : List Nat × Int :=
  let (s, e) := shortestDecimal num den
  let digits := Digits.ofNat 10 s
  ((digits.reverse.dropWhile (· == 0)).reverse, e + digits.length)

/-! ## Decimal text -/

/-- Digits with a decimal point at `point`: positional while `-6 < point ≤ 21`, else one digit
before the point and an exponent. -/
def layout (digits : List Char) (point : Int) : List Char :=
  let size : Int := digits.length
  if size ≤ point ∧ point ≤ 21 then
    digits ++ List.replicate (point - size).toNat '0'
  else if 0 < point ∧ point ≤ 21 then
    digits.take point.toNat ++ '.' :: digits.drop point.toNat
  else if -6 < point ∧ point ≤ 0 then
    '0' :: '.' :: (List.replicate (-point).toNat '0' ++ digits)
  else
    let exponent := point - 1
    let mantissa := match digits with
      | d :: e :: ds => d :: '.' :: e :: ds
      | ds => ds
    mantissa ++ 'e' :: (if 0 ≤ exponent then '+' else '-') :: Digits.text 10 exponent.natAbs

/-- The text of the positive quotient `num / den`. -/
def magnitudeText (num den : Nat) : List Char :=
  if den = 1 ∧ num ≤ exactLimit then Digits.text 10 num
  else
    let (digits, point) := shortestDigits num den
    layout (digits.map Nat.digitChar) point

/-- Characters behind a minus sign when the flag is set. -/
def signed (negative : Bool) (cs : List Char) : List Char :=
  if negative then '-' :: cs else cs

/-- The decimal text of a number as characters. -/
def chars : Number → List Char
  | whole n => signed (n < 0) (magnitudeText n.natAbs 1)
  | fraction m k _ => signed (m < 0) (magnitudeText m.natAbs (twoPow (k + 1)))
  | infinite negative => signed negative ['I', 'n', 'f', 'i', 'n', 'i', 't', 'y']
  | nan => ['N', 'a', 'N']

/-- The decimal text of a number. -/
def text (x : Number) : String := String.ofList x.chars

/-! ## Base sixteen -/

/-- The digits in base sixteen behind the point of `m / 2 ^ k`, for odd `m` and positive `k`. -/
def fractionHex (m k : Nat) : List Char :=
  let places := (k + 3) / 4
  Digits.padLeft places '0' (Digits.text 16 (m % twoPow k * twoPow (4 * places - k)))

/-- The text of a number in base sixteen as characters. -/
def hexChars : Number → List Char
  | whole n => signed (n < 0) (Digits.text 16 n.natAbs)
  | fraction m k _ =>
    signed (m < 0) (Digits.text 16 (m.natAbs / twoPow (k + 1)) ++
      '.' :: fractionHex m.natAbs (k + 1))
  | x => x.chars

/-- The text of a number in base sixteen. -/
def hex (x : Number) : String := String.ofList x.hexChars

end DebugWire.Number
