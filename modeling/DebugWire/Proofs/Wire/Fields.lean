import DebugWire.Wire.Command
import DebugWire.Wire.Register
import Mathlib.Data.Nat.Notation
import Mathlib.Tactic.Lemma

set_option relaxedAutoImplicit false
set_option autoImplicit false

/-!
# Fields of frames

The fields of fixed size: addresses, keys, and registers with their values. Each encoder accepts
just the values that fit, and the bytes that it writes hold the value.

## Main definitions

* `DebugWire.Command.Encodes` — a command that can be written.

## Main results

* `DebugWire.number16_bytes16` — a 16-bit number of two bytes.
* `DebugWire.Command.exists_of_encodeAddress`, `DebugWire.Command.exists_of_encodeKey`,
  `DebugWire.Command.exists_of_encodeRegister` — what is written for an address, a key and a
  register.
* `DebugWire.Command.exists_natCast_of_requestMemory`,
  `DebugWire.Command.exists_natCast_of_setMemory`, `DebugWire.Command.exists_natCast_of_setRegister`
  — the numbers of a command that can be written.
* `DebugWire.Command.encodeAddress_number16`, `DebugWire.Command.encodeKey_ofChar`,
  `DebugWire.Command.encodeRegister_natCast`, `DebugWire.Command.encodeRegister_number16` — a field
  that was read, written again.
-/

namespace DebugWire

/-! ## Results -/

/-- Work that goes on from a result has got that result. -/
lemma exists_of_bind_eq_ok {ε α β : Type} {x : Except ε α} {next : α → Except ε β} {b : β}
    (h : x >>= next = .ok b) : ∃ a, x = .ok a ∧ next a = .ok b := by
  cases x with
  | error e => cases h
  | ok a => exact ⟨a, rfl, h⟩

/-- A mapped result is the result mapped: there was one before, from which it came. -/
lemma exists_of_map_eq_ok {ε α β : Type} {x : Except ε α} {g : α → β} {b : β}
    (h : x.map g = .ok b) : ∃ a, x = .ok a ∧ g a = b := by
  cases x with
  | error e => cases h
  | ok a => exact ⟨a, rfl, Except.ok.inj h⟩

/-- A result that is there is that of the call. -/
lemma eq_ok_of_toOption {ε α : Type} {x : Except ε α} {a : α} (h : x.toOption = some a) :
    x = .ok a := by
  cases x with
  | ok b => rw [Option.some.inj h]
  | error f => cases h

/-! ## Numbers and keys -/

/-- What is found within a limit is the number itself. -/
lemma Number.eq_of_within? {limit n : ℕ} {x : Number} (h : x.within? limit = some n) :
    x = (n : Number) := by
  cases x with
  | whole m =>
    rw [within?, Option.ite_none_right_eq_some] at h
    obtain ⟨⟨hm, -⟩, he⟩ := h
    obtain rfl := Option.some.inj he
    rw [Int.toNat_of_nonneg hm]
  | fraction | infinite | nan => cases h

/-- A natural number within a limit is found, as that number. -/
lemma Number.within?_natCast {limit n : ℕ} (h : n ≤ limit) :
    (n : Number).within? limit = some n := by
  rw [within?, if_pos (by omega)]
  rfl

/-- Two bytes hold a 16-bit number, the high one first, and give it back. -/
lemma number16_bytes16 {n : ℕ} (h : n ≤ 0xffff) :
    number16 (UInt8.ofNat (n / 256)) (UInt8.ofNat (n % 256)) = (n : Number) := by
  have he : n / 256 % 256 * 256 + n % 256 % 256 = n := by omega
  rw [number16, UInt8.toNat_ofNat', UInt8.toNat_ofNat']
  exact congrArg (fun k : ℕ => (k : Number)) he

/-- Two bytes are those of the number that they hold. -/
lemma bytes16_toNat (high low : UInt8) : bytes16 (high.toNat * 256 + low.toNat) = [high, low] := by
  have hh := high.toNat_lt
  have hl := low.toNat_lt
  rw [bytes16, show (high.toNat * 256 + low.toNat) / 256 = high.toNat by omega,
    show (high.toNat * 256 + low.toNat) % 256 = low.toNat by
      omega, UInt8.ofNat_toNat, UInt8.ofNat_toNat]

/-- The number that two bytes hold has 16 bits. -/
lemma number16_le (high low : UInt8) : high.toNat * 256 + low.toNat ≤ 0xffff := by
  have hh := high.toNat_lt
  have hl := low.toNat_lt
  omega

/-- A key fits a byte, because its code point is below 256. -/
lemma Key.toNat_lt_of_isKey {c : Char} (h : isKey c = true) : c.toNat < 256 := by
  simp only [isKey, Bool.or_eq_true, Bool.and_eq_true, decide_eq_true_eq, beq_iff_eq] at h
  rcases h with (((h | rfl) | rfl) | rfl) | rfl
  · omega
  all_goals decide

/-! ## Fields of commands -/

namespace Command

/-- An address is written as two bytes that hold it.

**Proof sketch.** An address that can be written is a natural number of sixteen bits, and its two
bytes hold that. -/
lemma exists_of_encodeAddress {what : String} {address : Number} {bytes : Bytes}
    (h : encodeAddress what address = .ok bytes) :
    ∃ high low, bytes = [high, low] ∧ number16 high low = address := by
  unfold encodeAddress at h
  cases hw : address.within? 0xffff with
  | none =>
    rw [hw] at h
    cases h
  | some n =>
    rw [hw] at h
    obtain rfl := Except.ok.inj h
    refine ⟨_, _, rfl, ?_⟩
    rw [number16_bytes16 (Number.le_of_within? hw), Number.eq_of_within? hw]

/-- A key is written as the byte of its character.

**Proof sketch.** By the branches of `encodeKey`: the text has one character, and that is a key, so
it is below 256 and its byte gives it back. -/
lemma exists_of_encodeKey {key : String} {b : UInt8} (h : encodeKey key = .ok b) :
    Key.isKey (Char.ofNat b.toNat) = true ∧ Key.ofChar (Char.ofNat b.toNat) = key := by
  unfold encodeKey at h
  split at h
  case h_2 => cases h
  case h_1 c hc =>
    split at h
    case isFalse => cases h
    case isTrue hk =>
      obtain rfl := Except.ok.inj h
      rw [UInt8.toNat_ofNat', Nat.mod_eq_of_lt (Key.toNat_lt_of_isKey hk), Char.ofNat_toNat,
        Key.ofChar, ← hc, String.ofList_toList]
      exact ⟨hk, rfl⟩

/-- A register is written as its number, and a value in as many bytes as the register is wide.

**Proof sketch.** The name is looked up, the value is checked against the width, and what is written
are one byte or two, from which the value comes back. -/
lemma exists_of_encodeRegister {register : String} {value : Number} {bytes : Bytes}
    (h : encodeRegister register value = .ok bytes) :
    ∃ r : Register, r.name = register ∧
      ((∃ b, r.width = 1 ∧ bytes = [r.id, b] ∧ (b.toNat : Number) = value) ∨
        ∃ high low, r.width ≠ 1 ∧ bytes = [r.id, high, low] ∧ number16 high low = value) := by
  unfold encodeRegister at h
  cases hr : Register.ofName? register with
  | none =>
    rw [hr] at h
    cases h
  | some r =>
    rw [hr] at h
    dsimp only at h
    cases hw : value.within? r.widthLimit with
    | none =>
      rw [hw] at h
      cases h
    | some n =>
      rw [hw] at h
      obtain rfl := Except.ok.inj h
      have hle := Number.le_of_within? hw
      refine ⟨r, Register.name_of_ofName? hr, ?_⟩
      by_cases h1 : r.width = 1
      · rw [Register.widthLimit, if_pos h1] at hle
        refine .inl ⟨UInt8.ofNat n, h1, by rw [if_pos h1], ?_⟩
        rw [UInt8.toNat_ofNat', Nat.mod_eq_of_lt (by omega), Number.eq_of_within? hw]
      · rw [Register.widthLimit, if_neg h1] at hle
        refine .inr ⟨_, _, h1, by rw [if_neg h1]; rfl, ?_⟩
        rw [number16_bytes16 hle, Number.eq_of_within? hw]

/-! ## Fields that were read -/

/-- An address of sixteen bits can be written, as its two bytes. -/
lemma encodeAddress_natCast (what : String) {n : ℕ} (h : n ≤ 0xffff) :
    encodeAddress what (n : Number) = .ok (bytes16 n) := by
  rw [encodeAddress, Number.within?_natCast h]

/-- An address that was read is written as the bytes that it was read from. -/
lemma encodeAddress_number16 (what : String) (high low : UInt8) :
    encodeAddress what (number16 high low) = .ok [high, low] := by
  rw [number16, encodeAddress_natCast what (number16_le high low), bytes16_toNat]

/-- A key that was read is written as the byte that it was read from. -/
lemma encodeKey_ofChar {code : UInt8} (h : Key.isKey (Char.ofNat code.toNat) = true) :
    encodeKey (Key.ofChar (Char.ofNat code.toNat)) = .ok code := by
  have hc := code.toNat_lt
  have hn : (Char.ofNat code.toNat).toNat = code.toNat := by
    rw [Char.ofNat, dif_pos (.inl (by omega))]
    rfl
  simp only [encodeKey, Key.ofChar, String.toList_ofList, if_pos h, hn, UInt8.ofNat_toNat]

/-- A value of one byte that was read for a register is written as that byte. -/
lemma encodeRegister_natCast {r : Register} (h : r.width = 1) (b : UInt8) :
    encodeRegister r.name (b.toNat : Number) = .ok [r.id, b] := by
  have hb : b.toNat ≤ r.widthLimit := by
    have := b.toNat_lt
    rw [Register.widthLimit, if_pos h]
    omega
  simp only [encodeRegister, Register.ofName?_name, Number.within?_natCast hb, if_pos h,
    UInt8.ofNat_toNat]

/-- A value of two bytes that was read for a register is written as these bytes. -/
lemma encodeRegister_number16 {r : Register} (h : r.width ≠ 1) (high low : UInt8) :
    encodeRegister r.name (number16 high low) = .ok [r.id, high, low] := by
  have hb : high.toNat * 256 + low.toNat ≤ r.widthLimit := by
    rw [Register.widthLimit, if_neg h]
    exact number16_le high low
  simp only [number16, encodeRegister, Register.ofName?_name, Number.within?_natCast hb, if_neg h,
    bytes16_toNat]

/-! ## Commands that can be written -/

/-- A command *encodes* if it has a frame. -/
def Encodes (c : Command) : Prop := ∃ bytes, c.encode = .ok bytes

/-- The fields of a command that encodes can be written. -/
lemma Encodes.exists_encodeBody {c : Command} (h : c.Encodes) :
    ∃ body, c.encodeBody = .ok body := by
  obtain ⟨bytes, h⟩ := h
  cases c with
  | step | stepIgnoringBreakpoints | stop | requestDump | requestStack | inputString _ =>
    exact ⟨[], rfl⟩
  | _ =>
    obtain ⟨body, hbody, -⟩ := exists_of_map_eq_ok h
    exact ⟨body, hbody⟩

/-- An address that can be written is a natural number of sixteen bits. -/
lemma exists_natCast_of_encodeAddress {what : String} {address : Number} {bytes : Bytes}
    (h : encodeAddress what address = .ok bytes) :
    ∃ n : ℕ, n ≤ 0xffff ∧ address = (n : Number) := by
  unfold encodeAddress at h
  split at h
  case h_1 n hn => exact ⟨n, Number.le_of_within? hn, Number.eq_of_within? hn⟩
  case h_2 => cases h

/-- A range of memory that can be asked for lies between two natural numbers of sixteen bits. -/
lemma exists_natCast_of_requestMemory {first limit : Number}
    (h : (requestMemory first limit).Encodes) :
    ∃ n k : ℕ, n ≤ 0xffff ∧ k ≤ 0xffff ∧ first = (n : Number) ∧ limit = (k : Number) := by
  obtain ⟨body, hbody⟩ := h.exists_encodeBody
  obtain ⟨a, ha, hrest⟩ := exists_of_bind_eq_ok hbody
  obtain ⟨b, hb, -⟩ := exists_of_bind_eq_ok hrest
  obtain ⟨n, hn, hfirst⟩ := exists_natCast_of_encodeAddress ha
  obtain ⟨k, hk, hlimit⟩ := exists_natCast_of_encodeAddress hb
  exact ⟨n, k, hn, hk, hfirst, hlimit⟩

/-- Bytes that can be written by a command belong to an address of sixteen bits and fit one frame.
-/
lemma exists_natCast_of_setMemory {address : Number} {bytes : Bytes}
    (h : (setMemory address bytes).Encodes) :
    ∃ n : ℕ, n ≤ 0xffff ∧ address = (n : Number) ∧ bytes.length ≤ Chunk.maxSize := by
  obtain ⟨body, hbody⟩ := h.exists_encodeBody
  obtain ⟨a, ha, hrest⟩ := exists_of_bind_eq_ok hbody
  obtain ⟨n, hn, rfl⟩ := exists_natCast_of_encodeAddress ha
  refine ⟨n, hn, rfl, Nat.le_of_not_lt fun hlt => ?_⟩
  rw [if_pos hlt] at hrest
  cases hrest

/-- A value that can be written into a register is a natural number of sixteen bits. -/
lemma exists_natCast_of_setRegister {register : String} {value : Number}
    (h : (setRegister register value).Encodes) :
    ∃ n : ℕ, n ≤ 0xffff ∧ value = (n : Number) := by
  obtain ⟨body, hbody⟩ := h.exists_encodeBody
  obtain ⟨r, -, ⟨b, -, -, hb⟩ | ⟨high, low, -, -, hvalue⟩⟩ := exists_of_encodeRegister hbody
  · have hlt := b.toNat_lt
    exact ⟨b.toNat, by omega, hb.symm⟩
  · exact ⟨_, number16_le high low, hvalue.symm⟩

end Command

end DebugWire
