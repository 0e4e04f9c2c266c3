set_option autoImplicit false

/-!
# Letter case

The capitals and small letters in common use of the Latin, Greek, Cyrillic and Armenian scripts. All
other characters are left as they are.

## Main definitions

* `DebugWire.Text.capitals` — a character in upper case.
* `DebugWire.Text.smalls` — a character in lower case.
-/

namespace DebugWire.Text

/-- Intervals of small letters, by their first and last one, whose capitals stand at a fixed
distance in front of them. -/
def shiftedSmalls : List (Nat × Nat × Nat) :=
  [(0x61, 0x7a, 32), (0xe0, 0xf6, 32), (0xf8, 0xfe, 32), (0x3ad, 0x3af, 37), (0x3b1, 0x3c1, 32),
    (0x3c3, 0x3cb, 32), (0x430, 0x44f, 32), (0x450, 0x45f, 80), (0x561, 0x586, 48)]

/-- Intervals in which each capital stands right in front of its small letter, by their first
capital and their last small letter. -/
def alternating : List (Nat × Nat) :=
  [(0x100, 0x12f), (0x132, 0x137), (0x139, 0x148), (0x14a, 0x177), (0x179, 0x17e), (0x3d8, 0x3ef),
    (0x460, 0x481), (0x48a, 0x4bf), (0x4c1, 0x4ce), (0x4d0, 0x52f), (0x1e00, 0x1e95),
      (0x1ea0, 0x1eff)]

/-- Small letters that stand apart from their capitals. -/
def apart : List (Nat × Nat) :=
  [(0xff, 0x178), (0x3ac, 0x386), (0x3cc, 0x38c), (0x3cd, 0x38e), (0x3ce, 0x38f), (0x4cf, 0x4c0)]

/-- Small letters that have the capital of another one. -/
def furtherForms : List (Nat × Nat) := [(0xb5, 0x39c), (0x131, 0x49), (0x17f, 0x53), (0x3c2, 0x3a3)]

/-- The number of the capital of a small letter. -/
def capital? (n : Nat) : Option Nat :=
  match shiftedSmalls.find? fun r => r.1 ≤ n ∧ n ≤ r.2.1 with
  | some r => some (n - r.2.2)
  | none =>
    match alternating.find? fun r => r.1 ≤ n ∧ n ≤ r.2 with
    | some r => if (n - r.1) % 2 = 1 then some (n - 1) else none
    | none => (apart ++ furtherForms).lookup n

/-- The number of the small letter of a capital. -/
def small? (n : Nat) : Option Nat :=
  match shiftedSmalls.find? fun r => r.1 - r.2.2 ≤ n ∧ n ≤ r.2.1 - r.2.2 with
  | some r => some (n + r.2.2)
  | none =>
    match alternating.find? fun r => r.1 ≤ n ∧ n ≤ r.2 with
    | some r => if (n - r.1) % 2 = 0 then some (n + 1) else none
    | none => (apart.find? fun e => e.2 = n).map (·.1)

/-- A character in upper case; the sharp s becomes two letters. -/
def capitals (c : Char) : List Char :=
  if c = 'ß' then ['S', 'S'] else [((capital? c.toNat).map Char.ofNat).getD c]

/-- A character in lower case. -/
def smalls (c : Char) : Char := ((small? c.toNat).map Char.ofNat).getD c

end DebugWire.Text
