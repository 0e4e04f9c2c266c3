set_option autoImplicit false

/-!
# Positional digits

The digits of a natural number in a base, most significant first, and the number that a list of
digits stands for.

## Main definitions

* `DebugWire.Digits.ofNat` — the digits of a number, at least one.
* `DebugWire.Digits.value` — the number that digits stand for.
* `DebugWire.Digits.text`, `DebugWire.Digits.hex` — digits as characters, letters in lower case.
* `DebugWire.Digits.decimalValue?`, `DebugWire.Digits.hexValue?` — the digit that a character is.

## Main results

* `DebugWire.Digits.value_ofNat` — the digits of a number stand for it.
-/

namespace DebugWire.Digits

/-! ## Digits of a number -/

/-- The digits of `n` in a base of at least two, most significant first; `[n]` in smaller bases. -/
def ofNat (base n : Nat) : List Nat :=
  if base < 2 ∨ n < base then [n] else ofNat base (n / base) ++ [n % base]
termination_by n
decreasing_by exact Nat.div_lt_self (by omega) (by omega)

/-- The number that digits stand for, most significant first. -/
def value (base : Nat) (digits : List Nat) : Nat :=
  digits.foldl (fun v d => v * base + d) 0

/-- A digit behind others counts for itself, and each of the others for `base` times as much as
before. -/
@[simp]
theorem value_append_singleton (base : Nat) (ds : List Nat) (d : Nat) :
    value base (ds ++ [d]) = value base ds * base + d := by
  simp [value]

/-- The digits of a natural number in any base have that number as their value. -/
theorem value_ofNat (base n : Nat) : value base (ofNat base n) = n := by
  induction n using Nat.strongRecOn with
  | ind n ih =>
    unfold ofNat
    split
    · simp [value]
    · rw [value_append_singleton, ih _ (Nat.div_lt_self (by omega) (by omega))]
      rw [Nat.mul_comm]
      exact Nat.div_add_mod n base

/-- Every digit is below the base.

**Proof sketch.** Strong induction on the number, as `ofNat` recurses: the last digit is a
remainder, and all others are digits of the quotient, which is smaller. -/
theorem lt_of_mem_ofNat {base n d : Nat} (hb : 2 ≤ base) (h : d ∈ ofNat base n) : d < base := by
  induction n using Nat.strongRecOn with
  | ind n ih =>
    unfold ofNat at h
    split at h
    · simp only [List.mem_singleton] at h
      omega
    · rw [List.mem_append, List.mem_singleton] at h
      rcases h with h | h
      · exact ih _ (Nat.div_lt_self (by omega) (by omega)) h
      · rw [h]
        exact Nat.mod_lt _ (by omega)

/-! ## Digits as characters -/

/-- The digits of `n` as characters, letters in lower case. -/
def text (base n : Nat) : List Char := (ofNat base n).map Nat.digitChar

/-- A natural number in base sixteen. -/
def hex (n : Nat) : String := String.ofList (text 16 n)

/-- Characters filled up on the left to a least length. -/
def padLeft (width : Nat) (fill : Char) (cs : List Char) : List Char :=
  List.replicate (width - cs.length) fill ++ cs

/-- A byte as `0x` and two digits. -/
def hexByte (b : UInt8) : String := "0x" ++ String.ofList (padLeft 2 '0' (text 16 b.toNat))

/-- The decimal digit that a character is. -/
def decimalValue? (c : Char) : Option Nat :=
  if '0' ≤ c ∧ c ≤ '9' then some (c.toNat - '0'.toNat) else none

/-- The digit in base sixteen that a character is, in either letter case. -/
def hexValue? (c : Char) : Option Nat :=
  if '0' ≤ c ∧ c ≤ '9' then some (c.toNat - '0'.toNat)
  else if 'a' ≤ c ∧ c ≤ 'f' then some (c.toNat - 'a'.toNat + 10)
  else if 'A' ≤ c ∧ c ≤ 'F' then some (c.toNat - 'A'.toNat + 10)
  else none

/-- The number that a text of one or more decimal digits stands for. -/
def readDecimal? (cs : List Char) : Option Nat :=
  if cs.isEmpty then none else (cs.mapM decimalValue?).map (value 10)

/-- The number that a text of one or more digits in base sixteen stands for. -/
def readHex? (cs : List Char) : Option Nat :=
  if cs.isEmpty then none else (cs.mapM hexValue?).map (value 16)

end DebugWire.Digits
