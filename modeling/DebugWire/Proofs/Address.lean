import DebugWire.Address
import DebugWire.Proofs.Number.Natural
import DebugWire.Proofs.Text.Words

set_option relaxedAutoImplicit false
set_option autoImplicit false

/-!
# Which texts are addresses

A text spells a number by its form alone: blanks around it, one `@` in front of it or none, and
either decimal digits or a mark of base sixteen with digits behind it. It is read as an address
exactly if that number has sixteen bits. The number may have any number of digits. It is rounded
before it is checked, and no rounding takes it over the limit.

## Main definitions

* `DebugWire.Address.IsNumeral` — digits, with or without the mark of base sixteen, and their
  number.
* `DebugWire.Address.Spells` — a text and the number that it spells.
* `DebugWire.Address.ParsesExactly` — how a text is read.

## Main results

* `DebugWire.Address.number?_eq_some_iff` — which digits are read, and as which number.
* `DebugWire.Address.parses_exactly` — any text.
-/

namespace DebugWire.Address

open Digits (Denotes IsDigit)
open Text (AreBlank ArePlain)

/-! ## Spelling -/

/-- Characters are a *numeral*: decimal digits, or digits in base sixteen behind `x`, in front of
which a zero may stand. -/
inductive IsNumeral : List Char → ℕ → Prop
  | decimal {ds : List Char} {n : ℕ} : Denotes 10 ds n → IsNumeral ds n
  | hex {zero ds : List Char} {x : Char} {n : ℕ} : zero = [] ∨ zero = ['0'] → x = 'x' ∨ x = 'X' →
    Denotes 16 ds n → IsNumeral (zero ++ x :: ds) n

/-- A text *spells* a number if it is a numeral, with or without `@` in front, with blanks around
it. -/
def Spells (s : String) (n : ℕ) : Prop :=
  ∃ before mark digits after, s.toList = before ++ (mark ++ digits) ++ after ∧ AreBlank before ∧
  AreBlank after ∧
    (mark = [] ∨ mark = ['@']) ∧ IsNumeral digits n

variable {c : Char} {cs ds : List Char} {n d base : ℕ} {s : String}

/-- A digit is no blank, no mark of base sixteen and no `@`.

**Proof sketch.** A digit is one of sixteen characters or a capital of these, and all of them are
tried. -/
lemma plain_of_isDigit (hbase : base ≤ 16) (h : IsDigit base c d) :
    Text.isBlank c = false ∧ c ≠ 'x' ∧ c ≠ 'X' ∧ c ≠ '@' := by
  obtain ⟨hd, hc⟩ := h
  have hlower : ∀ d < 16, Text.isBlank (Nat.digitChar d) = false ∧
      Nat.digitChar d ≠ 'x' ∧ Nat.digitChar d ≠ 'X' ∧ Nat.digitChar d ≠ '@' := by
    decide
  have hupper : ∀ d < 16, Text.isBlank (Nat.digitChar d).toUpper = false ∧
      (Nat.digitChar d).toUpper ≠ 'x' ∧ (Nat.digitChar d).toUpper ≠ 'X' ∧
      (Nat.digitChar d).toUpper ≠ '@' := by
    decide
  rcases hc with rfl | rfl
  · exact hlower d (by omega)
  · exact hupper d (by omega)

/-- Digits are no blanks, no marks of base sixteen and no `@`. -/
lemma plain_of_denotes (hbase : base ≤ 16) (h : Denotes base ds n) :
    ∀ c ∈ ds, Text.isBlank c = false ∧ c ≠ 'x' ∧ c ≠ 'X' ∧ c ≠ '@' := by
  obtain ⟨-, vs, hall, -⟩ := h
  induction hall with
  | nil => exact nofun
  | cons hc _ ih => exact List.forall_mem_cons.2 ⟨plain_of_isDigit hbase hc, ih⟩

/-- A numeral is no blank, and no `@` is in it.

**Proof sketch.** A decimal numeral consists of digits. A numeral of base sixteen is a zero or
nothing, an `x` of either case and digits again; none of these characters is a blank or an `@`. -/
lemma plain_of_isNumeral (h : IsNumeral ds n) : ∀ c ∈ ds, Text.isBlank c = false ∧ c ≠ '@' := by
  cases h with
  | decimal h =>
    intro c hc
    obtain ⟨hblank, -, -, hat⟩ := plain_of_denotes (by decide) h c hc
    exact ⟨hblank, hat⟩
  | hex hzero hx h =>
    refine List.forall_mem_append.2 ⟨fun c hc => ?_, List.forall_mem_cons.2 ⟨?_, fun c hc => ?_⟩⟩
    · rcases hzero with rfl | rfl
      · cases hc
      · rw [List.mem_singleton.1 hc]
        exact ⟨rfl, by decide⟩
    · rcases hx with rfl | rfl <;> exact ⟨rfl, by decide⟩
    · obtain ⟨hblank, -, -, hat⟩ := plain_of_denotes (by decide) h c hc
      exact ⟨hblank, hat⟩

/-! ## Reading -/

/-- Which digits are read, and as which number.

**Proof sketch.** The patterns of `number?` are the four spellings of the mark of base sixteen, and
the last one takes everything else. A decimal numeral comes to the last one, as no digit is an `x`.
-/
theorem number?_eq_some_iff : number? cs = some n ↔ IsNumeral cs n := by
  constructor
  · intro h
    unfold number? at h
    split at h
    · exact .hex (.inr rfl) (.inl rfl) (Digits.readHex?_eq_some_iff.1 h)
    · exact .hex (.inr rfl) (.inr rfl) (Digits.readHex?_eq_some_iff.1 h)
    · exact .hex (.inl rfl) (.inl rfl) (Digits.readHex?_eq_some_iff.1 h)
    · exact .hex (.inl rfl) (.inr rfl) (Digits.readHex?_eq_some_iff.1 h)
    · exact .decimal (Digits.readDecimal?_eq_some_iff.1 h)
  · intro h
    cases h with
    | decimal h =>
      -- No digit is a mark of base sixteen, so the digits are read by the last of the patterns.
      have hplain := plain_of_denotes (by decide) h
      unfold number?
      split
      · exact absurd rfl (hplain 'x' (by simp)).2.1
      · exact absurd rfl (hplain 'X' (by simp)).2.2.1
      · exact absurd rfl (hplain 'x' (by simp)).2.1
      · exact absurd rfl (hplain 'X' (by simp)).2.2.1
      · exact Digits.readDecimal?_eq_some_iff.2 h
    | hex hzero hx h =>
      rcases hzero with rfl | rfl <;> rcases hx with rfl | rfl <;>
        exact Digits.readHex?_eq_some_iff.2 h

/-- One `@` in front is dropped, if there is one. -/
lemma exists_dropAt (cs : List Char) :
    ∃ mark, (mark = [] ∨ mark = ['@']) ∧ cs = mark ++ dropAt cs := by
  unfold dropAt
  split
  · exact ⟨['@'], .inr rfl, rfl⟩
  · exact ⟨[], .inl rfl, rfl⟩

/-- No `@` is dropped from a text without any. -/
lemma dropAt_eq (h : ∀ c ∈ cs, c ≠ '@') : dropAt cs = cs := by
  unfold dropAt
  split
  · exact absurd rfl (h '@' List.mem_cons_self)
  · rfl

/-- **The number that is read** from a text is the one that it spells.

**Proof sketch.** From left to right, the blanks of the spelling are those that are trimmed, since a
numeral has none inside, and its mark is the one that is dropped. From right to left, `exists_trim`
and `exists_dropAt` give the parts of the text back. -/
theorem spells_iff : Spells s n ↔ number? (dropAt (Text.trim s.toList)) = some n := by
  constructor
  · rintro ⟨before, mark, digits, after, htext, hbefore, hafter, hmark, hdigits⟩
    have hplain := plain_of_isNumeral hdigits
    -- What stands between the blanks has none in it, so just the blanks are trimmed.
    have hcore : ArePlain (mark ++ digits) := by
      refine List.forall_mem_append.2 ⟨?_, fun c hc => (hplain c hc).1⟩
      rcases hmark with rfl | rfl
      · exact nofun
      · exact List.forall_mem_singleton.2 rfl
    have hdrop : dropAt (mark ++ digits) = digits := by
      rcases hmark with rfl | rfl
      · exact dropAt_eq fun c hc => (hplain c hc).2
      · rfl
    rw [htext, Text.trim_append_append hbefore hcore hafter, hdrop, number?_eq_some_iff]
    exact hdigits
  · intro h
    obtain ⟨before, after, hbefore, hafter, htext⟩ := Text.exists_trim s.toList
    obtain ⟨mark, hmark, hcore⟩ := exists_dropAt (Text.trim s.toList)
    exact ⟨before, mark, _, after, by rw [← hcore, ← htext], hbefore, hafter, hmark,
      number?_eq_some_iff.1 h⟩

/-- A text spells one number at most, because reading is a function and finds whatever is spelled.
-/
lemma Spells.unique {k : ℕ} (hn : Spells s n) (hk : Spells s k) : n = k :=
  Option.some.inj ((spells_iff.1 hn).symm.trans (spells_iff.1 hk))

/-- A number that was read is checked, and rounding it first makes no difference. -/
lemma parse_of_spells (h : Spells s n) :
    parse s = if n ≤ 0xffff then .ok n else .error (.tooLarge s) := by
  rw [parse, spells_iff.1 h]
  dsimp only
  rw [Number.ofInt, Number.within?_round (by decide)]
  split_ifs with hn
  · rw [Number.within?, if_pos (by omega)]
    rfl
  · rw [Number.within?, if_neg (by omega)]

/-- What a text is read as: the number that it spells, or one of two problems.

**Proof sketch.** By what the reader finds behind the blanks and the `@`. A number that it finds is
spelled, and is in range or not; where it finds none, none is spelled. -/
lemma parse_cases (s : String) :
    (∃ n, Spells s n ∧ n ≤ 0xffff ∧ parse s = .ok n) ∨
    (∃ n, Spells s n ∧ 0xffff < n ∧ parse s = .error (.tooLarge s)) ∨
    ((∀ n, ¬ Spells s n) ∧ parse s = .error (.invalid s)) := by
  cases hread : number? (dropAt (Text.trim s.toList)) with
  | some n =>
    have hn := spells_iff.2 hread
    have hp := parse_of_spells hn
    split_ifs at hp with hle
    · exact .inl ⟨n, hn, hle, hp⟩
    · exact .inr (.inl ⟨n, hn, by omega, hp⟩)
  | none =>
    refine .inr (.inr ⟨fun n hn => ?_, by rw [parse, hread]⟩)
    rw [spells_iff, hread] at hn
    cases hn

/-! ## Writing -/

/-- The text of a 16-bit address spells it.

**Proof sketch.** The text is `0x` and the digits of `n` in upper case, filled up with zeros to four
of them, and such zeros do not change what a numeral denotes. -/
lemma spells_format (n : ℕ) : Spells (format (n : Number)) n := by
  have hdigit : ∀ d < 16, IsDigit 16 (Nat.digitChar d).toUpper d := fun d hd => ⟨hd, .inr rfl⟩
  have htext : (format (n : Number)).toList =
      ['0'] ++ 'x' :: (List.replicate (4 - (Digits.ofNat 16 n).length) 0 ++ Digits.ofNat 16 n).map
        fun d => (Nat.digitChar d).toUpper := by
    have hhex : (n : Number).hexChars = Digits.text 16 n := by
      rw [Number.hexChars_natCast, Digits.text_eq_toDigits (by decide)]
    have htail : Digits.padLeft 4 '0' ((Digits.text 16 n).map Char.toUpper) =
        (List.replicate (4 - (Digits.ofNat 16 n).length) 0 ++ Digits.ofNat 16 n).map
          fun d => (Nat.digitChar d).toUpper := by
      rw [Digits.text, Digits.padLeft, List.map_map, List.length_map, List.map_append,
        List.map_replicate]
      rfl
    rw [format, hhex, htail, String.toList_append, String.toList_ofList (l := List.map _ _)]
    rfl
  have hnone : AreBlank [] := List.forall_mem_nil _
  refine ⟨[], [], _, [], by rw [List.nil_append, List.nil_append, List.append_nil], hnone, hnone,
    .inl rfl, ?_⟩
  rw [htext]
  exact .hex (.inr rfl) (.inl rfl) (Digits.denotes_ofNat (by decide) hdigit _ n)

/-- How texts are read as addresses. -/
structure ParsesExactly : Prop where
  /-- A text is an address exactly if it spells one of sixteen bits, and then it is this one. -/
  ok_iff : ∀ s n, parse s = .ok n ↔ Spells s n ∧ n ≤ 0xffff
  /-- It is out of range exactly if it spells a greater number. -/
  tooLarge_iff : ∀ s, parse s = .error (.tooLarge s) ↔ ∃ n, Spells s n ∧ 0xffff < n
  /-- It is refused for its form exactly if it spells no number. -/
  invalid_iff : ∀ s, parse s = .error (.invalid s) ↔ ∀ n, ¬ Spells s n
  /-- The text of a 16-bit address is read as this address. -/
  parse_format : ∀ n : ℕ, n ≤ 0xffff → parse (format (n : Number)) = .ok n

/-- **Texts are read as the addresses that they spell.**

**Proof sketch.** `parse_cases` splits the texts into those that spell an address, those that spell
a number above the last address and those that spell none. A text spells one number at most, so in
each case the two other clauses cannot hold. -/
theorem parses_exactly : ParsesExactly where
  ok_iff s n := by
    obtain ⟨k, hk, hle, hp⟩ | ⟨k, hk, hlt, hp⟩ | ⟨hnone, hp⟩ := parse_cases s
    · rw [hp, Except.ok.injEq]
      exact ⟨fun hkn => hkn ▸ ⟨hk, hle⟩, fun hn => hk.unique hn.1⟩
    · rw [hp]
      refine iff_of_false nofun fun hn => ?_
      rw [hk.unique hn.1] at hlt
      omega
    · rw [hp]
      exact iff_of_false nofun fun hn => hnone n hn.1
  tooLarge_iff s := by
    obtain ⟨k, hk, hle, hp⟩ | ⟨k, hk, hlt, hp⟩ | ⟨hnone, hp⟩ := parse_cases s
    · rw [hp]
      refine iff_of_false nofun fun ⟨n, hn, hlt⟩ => ?_
      rw [hk.unique hn] at hle
      omega
    · exact iff_of_true hp ⟨k, hk, hlt⟩
    · rw [hp]
      exact iff_of_false nofun fun ⟨n, hn, _⟩ => hnone n hn
  invalid_iff s := by
    obtain ⟨k, hk, -, hp⟩ | ⟨k, hk, -, hp⟩ | ⟨hnone, hp⟩ := parse_cases s
    · rw [hp]
      exact iff_of_false nofun fun hnone => hnone k hk
    · rw [hp]
      exact iff_of_false nofun fun hnone => hnone k hk
    · exact iff_of_true hp hnone
  parse_format n hn := by
    rw [parse_of_spells (spells_format n), if_pos hn]

/-- The mark of base sixteen is no number by itself, and leading zeros are no matter. -/
example : parse " @0x\n" = .error (.invalid " @0x\n") ∧ parse "@0000065535 " = .ok 0xffff ∧
    parse "x10000" = .error (.tooLarge "x10000") := by
  decide +kernel

end DebugWire.Address
