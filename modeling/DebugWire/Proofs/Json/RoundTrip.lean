import DebugWire.Json.Parser
import DebugWire.Json.Printer
import DebugWire.Proofs.Number.Digits
import DebugWire.Proofs.Text.Units
import Mathlib.Tactic.Lemma
import Mathlib.Tactic.SplitIfs

set_option relaxedAutoImplicit false
set_option autoImplicit false

/-!
# Reading printed JSON back

The text of a value on one line reads back as that value, and what follows it is left. The numbers
in the value have to be whole numbers that binary64 holds exactly, and its objects have to list
their members in the order in which objects list them, each name once. Any string will do.

## Main definitions

* `DebugWire.Json.NumberEnds` — what follows a number does not go on with it.
* `DebugWire.Json.ReadsAs` — a text that reads as a value, up to what follows it.
* `DebugWire.Json.Style` — a way to write arrays and objects, with blanks where the reader skips
  them.
* `DebugWire.Json.Faithful` — the values that read back from one line.

## Main results

* `DebugWire.Json.readNumber?_chars` — a whole number.
* `DebugWire.Json.readString?_writeString` — a string.
* `DebugWire.Json.Style.readsAs_array`, `DebugWire.Json.Style.readsAs_object` — arrays and objects
  in any style.
* `DebugWire.Json.readsBack_of_faithful` — a value in front of further characters.
* `DebugWire.Json.parse?_compact` — the text of a value.
-/

namespace DebugWire

namespace Json

/-! ## Numbers -/

/-- What follows a number does not go on with it: it begins with no digit, no point and no exponent.
-/
def NumberEnds (rest : List Char) : Prop :=
  ∀ c ∈ rest.head?, ¬ ('0' ≤ c ∧ c ≤ '9') ∧ c ≠ '.' ∧ c ≠ 'e' ∧ c ≠ 'E'

/-- A number ends where the text does, so one at the very end can be read back. -/
lemma numberEnds_nil : NumberEnds [] := nofun

/-- A number ends in front of a character that does not go on with it. -/
lemma numberEnds_cons {c : Char} (rest : List Char)
    (h : ¬ ('0' ≤ c ∧ c ≤ '9') ∧ c ≠ '.' ∧ c ≠ 'e' ∧ c ≠ 'E') : NumberEnds (c :: rest) := by
  rintro _ ⟨⟩
  exact h

/-- Digits are read up to the first character that is none.

**Proof sketch.** Taking characters while they are digits takes all digits and stops at the rest,
and each character is worth the digit it was made from. -/
lemma spanDigits_map {ds : List ℕ} (h : ∀ d ∈ ds, d < 10) {rest : List Char}
    (hr : ∀ c ∈ rest.head?, ¬ ('0' ≤ c ∧ c ≤ '9')) :
    spanDigits (ds.map Nat.digitChar ++ rest) = (ds, rest) := by
  have hall : ∀ c ∈ ds.map Nat.digitChar, decide ('0' ≤ c ∧ c ≤ '9') = true := by
    rintro c hc
    obtain ⟨d, hd, rfl⟩ := List.mem_map.1 hc
    exact decide_eq_true (Digits.digitChar_of_lt (h d hd)).1
  have hstop : rest.takeWhile (fun c => decide ('0' ≤ c ∧ c ≤ '9')) = [] := by
    cases rest with
    | nil => rfl
    | cons c rest => exact List.takeWhile_cons_of_neg fun hc => hr c rfl (of_decide_eq_true hc)
  have hdigits : (ds.map Nat.digitChar).map (fun c => c.toNat - '0'.toNat) = ds := by
    rw [List.map_map]
    refine (List.map_congr_left fun d hd => ?_).trans (List.map_id _)
    exact (Digits.digitChar_of_lt (h d hd)).2
  rw [spanDigits, List.takeWhile_append_of_pos hall, hstop, List.append_nil, hdigits,
    List.drop_left]

/-- The digits of a number are read up to its end. -/
lemma spanDigits_text {n : ℕ} {rest : List Char} (h : NumberEnds rest) :
    spanDigits (Digits.text 10 n ++ rest) = (Digits.ofNat 10 n, rest) :=
  spanDigits_map (fun _ hd => Digits.lt_of_mem_ofNat (by decide) hd) fun c hc => (h c hc).1

/-- The digits in front of the point are read as such. -/
lemma readInteger?_text {n : ℕ} {rest : List Char} (h : NumberEnds rest) :
    readInteger? (Digits.text 10 n ++ rest) = some (Digits.ofNat 10 n, rest) := by
  rw [readInteger?, spanDigits_text h]
  dsimp only
  split
  case h_1 hd => exact absurd hd (Digits.ofNat_ne_nil _ _)
  case h_2 hd => cases Digits.eq_nil_of_ofNat_eq_zero_cons hd
  case h_3 => rfl

/-- There is no fraction behind the end of a number. -/
lemma readFraction?_of_numberEnds {rest : List Char} (h : NumberEnds rest) :
    readFraction? rest = some ([], rest) := by
  cases rest with
  | nil => rfl
  | cons c rest =>
    unfold readFraction?
    split
    case h_1 hc => exact absurd (List.cons.inj hc).1 (h c rfl).2.1
    case h_2 => rfl

/-- There is no exponent behind the end of a number. -/
lemma readExponent?_of_numberEnds {rest : List Char} (h : NumberEnds rest) :
    readExponent? rest = some (0, rest) := by
  cases rest with
  | nil => rfl
  | cons c rest => exact if_neg fun hc => hc.elim (h c rfl).2.2.1 (h c rfl).2.2.2

/-- Digits in front of the point begin with a digit.

**Proof sketch.** Without a digit at the beginning there are no digits to be read. -/
lemma exists_of_readInteger? {cs : List Char} {r : List ℕ × List Char}
    (h : readInteger? cs = some r) :
    ∃ c cs', cs = c :: cs' ∧ '0' ≤ c ∧ c ≤ '9' := by
  cases cs with
  | nil => cases h
  | cons c cs' =>
    refine ⟨c, cs', rfl, ?_⟩
    by_contra hc
    have hspan : spanDigits (c :: cs') = ([], c :: cs') := by
      rw [spanDigits, List.takeWhile_cons_of_neg (by simpa using hc)]
      rfl
    rw [readInteger?, hspan] at h
    cases h

/-- A number is read from its parts.

**Proof sketch.** Without a sign the number begins with a digit, so what is read is not taken for a
minus; then the three parts are read one behind the other. -/
lemma readNumber?_signed (negative : Bool) {cs cs₁ cs₂ rest : List Char} {whole part : List ℕ}
    {e : ℤ} (hw : readInteger? cs = some (whole, cs₁)) (hp : readFraction? cs₁ = some (part, cs₂))
    (he : readExponent? cs₂ = some (e, rest)) :
    readNumber? (Number.signed negative cs) =
      some (.ofDecimal negative (Digits.value 10 (whole ++ part)) (e - part.length), rest) := by
  unfold readNumber?
  split
  rename_i negative' cs' hs
  obtain ⟨rfl, rfl⟩ : negative' = negative ∧ cs' = cs := by
    cases negative with
    | true => exact Prod.mk.inj hs.symm
    | false =>
      obtain ⟨c, cs'', rfl, hc, -⟩ := exists_of_readInteger? hw
      rw [Number.signed, if_neg Bool.false_ne_true] at hs
      split at hs
      case h_1 h =>
        rw [(List.cons.inj h).1] at hc
        exact absurd hc (by decide)
      case h_2 => exact Prod.mk.inj hs.symm
  simp only [hw, hp, he]

/-- A sign stands in front of whatever follows, so it can be put there before or after the rest is.
-/
lemma signed_append (negative : Bool) (cs rest : List Char) :
    Number.signed negative cs ++ rest = Number.signed negative (cs ++ rest) := by
  cases negative <;> rfl

/-- The text of a whole number that binary64 holds exactly. -/
lemma chars_whole {z : Int} (h : z.natAbs ≤ Number.exactLimit) :
    (Number.whole z).chars = Number.signed (z < 0) (Digits.text 10 z.natAbs) := by
  rw [Number.chars, Number.magnitudeText, if_pos ⟨rfl, h⟩]

/-- The digits of a magnitude that binary64 holds exactly stand for it, and with its sign for the
number. -/
lemma ofDecimal_natAbs {z : Int} (h : z.natAbs ≤ Number.exactLimit) :
    Number.ofDecimal (z < 0) (Digits.value 10 (Digits.ofNat 10 z.natAbs ++ []))
      (0 - (([] : List ℕ).length : Int)) = .whole z := by
  rw [List.append_nil, Digits.value_ofNat]
  by_cases hn : z.natAbs = 0
  · rw [Number.ofDecimal, if_pos hn, Int.natAbs_eq_zero.1 hn]
  · rw [Number.ofDecimal, if_neg hn, if_pos ⟨rfl, h⟩]
    refine congrArg Number.whole ?_
    simp only [decide_eq_true_eq]
    split_ifs <;> omega

/-- **Whole numbers read back**, up to the limit of what binary64 holds exactly. -/
theorem readNumber?_chars {z : Int} (h : z.natAbs ≤ Number.exactLimit) {rest : List Char}
    (hr : NumberEnds rest) :
    readNumber? ((Number.whole z).chars ++ rest) = some (.whole z, rest) := by
  rw [chars_whole h, signed_append,
    readNumber?_signed _ (readInteger?_text hr) (readFraction?_of_numberEnds hr)
    (readExponent?_of_numberEnds hr), ofDecimal_natAbs h]

/-! ## Strings -/

/-- The digits of a control character stand for it.

**Proof sketch.** A control has one digit in base sixteen or two, and is filled up to four with
zeros, which are worth nothing. -/
lemma exists_padLeft_eq {n : ℕ} (h : n < 0x20) :
    ∃ a b, Digits.padLeft 4 '0' (Digits.text 16 n) = ['0', '0', a, b] ∧
      readUnit? '0' '0' a b = some n := by
  have h0 : Digits.hexValue? '0' = some 0 := rfl
  have hread {p q : ℕ} (hp : p < 16) (hq : q < 16) :
      readUnit? '0' '0' (Nat.digitChar p) (Nat.digitChar q) = some (p * 16 + q) := by
    simp [readUnit?, Digits.readHex?, h0, Digits.hexValue?_digitChar hp,
      Digits.hexValue?_digitChar hq, Digits.value]
  by_cases hn : n < 16
  · have htext : Digits.text 16 n = [Nat.digitChar n] := by
      rw [Digits.text, Digits.ofNat, if_pos (.inr hn)]
      rfl
    have hr := hread (p := 0) (by omega) hn
    rw [Nat.zero_mul, Nat.zero_add] at hr
    exact ⟨_, _, congrArg (Digits.padLeft 4 '0') htext, hr⟩
  · have htext : Digits.text 16 n = [Nat.digitChar (n / 16), Nat.digitChar (n % 16)] := by
      rw [Digits.text, Digits.ofNat, if_neg (by omega), Digits.ofNat, if_pos (by omega)]
      rfl
    refine ⟨_, _, congrArg (Digits.padLeft 4 '0') htext, ?_⟩
    rw [hread (by omega) (by omega), Nat.div_add_mod']

/-- A character stands in a string as a backslash with the letter for it, as an escape with its
digits, or as itself.

**Proof sketch.** By whether the character is one of the seven that have a letter, for each of which
the letter is known, and otherwise by whether it is a control. -/
lemma escape_cases (c : Char) :
    (∃ x, escape c = ['\\', x] ∧ x ≠ 'u' ∧ unescape? x = some c) ∨
    (c.toNat < 0x20 ∧ ∃ a b, escape c = ['\\', 'u', '0', '0', a, b] ∧
      readUnit? '0' '0' a b = some c.toNat) ∨
    (escape c = [c] ∧ c ≠ '"' ∧ c ≠ '\\' ∧ ¬ c.toNat < 0x20) := by
  by_cases hletter : c ∈ ['"', '\\', '\x08', '\t', '\n', '\x0c', '\r']
  · simp only [List.mem_cons, List.not_mem_nil, or_false] at hletter
    rcases hletter with rfl | rfl | rfl | rfl | rfl | rfl | rfl <;>
      exact .inl ⟨_, rfl, by decide, rfl⟩
  · simp only [List.mem_cons, List.not_mem_nil, or_false, not_or] at hletter
    obtain ⟨h1, h2, h3, h4, h5, h6, h7⟩ := hletter
    rw [escape, if_neg h1, if_neg h2, if_neg h3, if_neg h4, if_neg h5, if_neg h6, if_neg h7]
    by_cases hcontrol : c.toNat < 0x20
    · obtain ⟨a, b, he, hr⟩ := exists_padLeft_eq hcontrol
      exact .inr (.inl ⟨hcontrol, a, b, by rw [if_pos hcontrol, he], hr⟩)
    · exact .inr (.inr ⟨if_neg hcontrol, h1, h2, hcontrol⟩)

/-- The characters of a string as they stand in it, its last quote, and what follows. -/
def escaped (s rest : List Char) : List Char := s.foldr (fun c cs => escape c ++ cs) ('"' :: rest)

/-- Where a string goes on with an escape by digits, there are digits.

**Proof sketch.** By how the first character of the string is written. Only a control is written as
a `u` behind a backslash, and four digits follow that. -/
lemma exists_readUnit?_of_escaped {s rest cs : List Char} {a b c d : Char}
    (h : escaped s rest = '\\' :: 'u' :: a :: b :: c :: d :: cs) :
    ∃ n, readUnit? a b c d = some n := by
  cases s with
  | nil => cases h
  | cons x s =>
    rw [escaped, List.foldr_cons] at h
    rcases escape_cases x with ⟨y, he, hy, -⟩ | ⟨-, p, q, he, hr⟩ | ⟨he, -, hx, -⟩ <;> rw [he] at h
    · exact absurd (List.cons.inj (List.cons.inj h).2).1 hy
    · simp only [List.cons_append, List.cons.injEq] at h
      obtain ⟨-, -, rfl, rfl, rfl, rfl, -⟩ := h
      exact ⟨_, hr⟩
    · exact absurd (List.cons.inj h).1 hx

/-- A character as it stands in a string reads back.

**Proof sketch.** By the three ways in which a character is written: with an escape of its own, as a
unit of four digits, or as it is. A unit that is no surrogate stands for itself, whatever unit
follows it. -/
lemma readStringFrom?_escape (seen : List Char) (c : Char) (s rest : List Char) :
    readStringFrom? seen (escape c ++ escaped s rest) =
      readStringFrom? (c :: seen) (escaped s rest) := by
  rcases escape_cases c with ⟨x, he, hx, hu⟩ | ⟨hc, a, b, he, hr⟩ | ⟨he, hq, hb, hc⟩ <;>
    rw [he] <;> simp only [List.cons_append, List.nil_append]
  · rw [readStringFrom?]
    · rw [hu]
    · exact fun _ _ _ _ _ hu' _ => hx hu'
  · rw [readStringFrom?, hr]
    dsimp only
    have hchar := Units.unitChar_toNat c
    have hhigh := (Units.isSurrogate_toNat c).1
    split
    case h_1 hs =>
      obtain ⟨w, hw⟩ := exists_readUnit?_of_escaped hs
      rw [hw, hhigh, hs, hchar]
      rfl
    case h_2 => rw [hchar]
  · rw [readStringFrom?]
    · rw [if_neg (by simp [hc, hb])]
    · exact hq
    · rintro a b c d cs rfl
      exact absurd rfl hb
    · rintro a cs rfl
      exact absurd rfl hb

/-- The characters of a string read back, up to its last quote. -/
lemma readStringFrom?_escaped (seen s rest : List Char) :
    readStringFrom? seen (escaped s rest) = some (seen.reverse ++ s, rest) := by
  induction s generalizing seen with
  | nil =>
    rw [escaped, List.foldr_nil, readStringFrom?, List.append_nil]
  | cons c s ih =>
    have hc := readStringFrom?_escape seen c s rest
    rw [ih, List.reverse_cons, List.append_assoc] at hc
    exact hc

/-- **Strings read back**, whatever their characters are, and what follows the closing quote is
left. -/
theorem readString?_writeString (s : String) (rest : List Char) :
    ∃ cs, writeString s rest = '"' :: cs ∧ readString? cs = some (s, rest) := by
  refine ⟨_, rfl, ?_⟩
  have hs := readStringFrom?_escaped [] s.toList rest
  rw [escaped] at hs
  rw [readString?, hs]
  simp

/-! ## Objects -/

/-- A member with a new name goes to the end. -/
lemma put_of_notMem {name : String} {value : Json} {members : List (String × Json)}
    (h : name ∉ members.map (·.1)) : put name value members = members ++ [(name, value)] := by
  induction members with
  | nil => rfl
  | cons m members ih =>
    obtain ⟨n, v⟩ := m
    rw [List.map_cons, List.mem_cons, not_or] at h
    rw [put, if_neg (Ne.symm h.1), ih h.2, List.cons_append]

/-- Members with different names that are no array indices are listed as they are written down.

**Proof sketch.** Induction on the members: each has a new name, so it is put at the end. As none is
an array index, listing the indices first changes nothing. -/
lemma ofMembers_eq {members : List (String × Json)} (hnodup : (members.map (·.1)).Nodup)
    (hnames : ∀ n ∈ members.map (·.1), arrayIndex? n = none) :
    ofMembers members = object members := by
  have hput (done todo : List (String × Json)) (h : ((done ++ todo).map (·.1)).Nodup) :
      todo.foldl (fun ms m => put m.1 m.2 ms) done = done ++ todo := by
    induction todo generalizing done with
    | nil => rw [List.foldl_nil, List.append_nil]
    | cons m todo ih =>
      have hnew : m.1 ∉ done.map (·.1) := by
        rw [List.map_append, List.nodup_append] at h
        exact fun hm => h.2.2 _ hm _ (List.mem_map_of_mem List.mem_cons_self) rfl
      rw [List.foldl_cons, put_of_notMem hnew, ih, List.append_assoc, List.singleton_append]
      rwa [List.append_assoc, List.singleton_append]
  have hnone (m : String × Json) (hm : m ∈ members) : arrayIndex? m.1 = none :=
    hnames _ (List.mem_map_of_mem hm)
  have hindexed : members.filterMap (fun m => (arrayIndex? m.1).map (·, m)) = [] := by
    rw [List.filterMap_eq_nil_iff]
    exact fun m hm => by rw [hnone m hm]; rfl
  have hnamed : members.filter (fun m => (arrayIndex? m.1).isNone) = members := by
    rw [List.filter_eq_self]
    exact fun m hm => by rw [hnone m hm]; rfl
  rw [ofMembers, hput [] members hnodup, List.nil_append, arrange, hindexed, hnamed,
    List.mergeSort_nil]
  rfl

/-! ## Texts of values -/

/-- A text *reads as* a value up to what follows it: with fuel for as many steps as the text has
characters, the reader gives the value and leaves what follows. The text begins with no blank and
closes no array. -/
structure ReadsAs (v : Json) (text rest : List Char) : Prop where
  /-- The text begins with a character of its own. -/
  head : ∃ c cs, text = c :: cs ∧ isGap c = false ∧ c ≠ ']'
  /-- The value takes up characters. -/
  length : rest.length < text.length
  /-- The reader gives the value. -/
  read : ∀ fuel, text.length ≤ fuel + rest.length → readValue? fuel text = some (v, rest)

/-- A character that is no blank is not skipped. -/
lemma skipGap_cons {c : Char} (h : isGap c = false) (cs : List Char) :
    skipGap (c :: cs) = c :: cs :=
  List.dropWhile_cons_of_neg (by rw [h]; exact nofun)

/-- A text reads as a value if it begins with a character of its own, and the reader gives the value
on any fuel. -/
lemma readsAs_of_forall_succ {v : Json} {c : Char} {cs rest : List Char} (hgap : isGap c = false)
    (hc : c ≠ ']') (hlt : rest.length < (c :: cs).length)
    (h : ∀ fuel, readValue? (fuel + 1) (c :: cs) = some (v, rest)) :
    ReadsAs v (c :: cs) rest := by
  refine ⟨⟨c, cs, rfl, hgap, hc⟩, hlt, fun fuel hf => ?_⟩
  obtain ⟨k, rfl⟩ := Nat.exists_eq_succ_of_ne_zero (n := fuel) (by omega)
  exact h k

/-- The characters that a number begins with. -/
def numberHeads : List Char := ['-', '0', '1', '2', '3', '4', '5', '6', '7', '8', '9']

/-- The digits are among the characters that begin a number. -/
lemma mem_numberHeads {c : Char} (h0 : '0' ≤ c) (h9 : c ≤ '9') : c ∈ numberHeads := by
  have h0' : 48 ≤ c.toNat := h0
  have h9' : c.toNat ≤ 57 := h9
  obtain ⟨d, hd, hcd⟩ : ∃ d < 10, c.toNat = 48 + d := ⟨c.toNat - 48, by omega, by omega⟩
  have hdigits : ∀ d < 10, Char.ofNat (48 + d) ∈ numberHeads := by decide
  rw [← Char.ofNat_toNat c, hcd]
  exact hdigits d hd

/-- A number begins with a digit or a minus.

**Proof sketch.** Behind the sign a number begins with its integer part, and that with a digit. -/
lemma exists_of_readNumber? {cs : List Char} {r : Number × List Char}
    (h : readNumber? cs = some r) :
    ∃ c cs', cs = c :: cs' ∧ c ∈ numberHeads := by
  unfold readNumber? at h
  split at h
  rename_i negative cs' hs
  split at hs
  case h_1 => exact ⟨_, _, rfl, by decide⟩
  case h_2 =>
    obtain ⟨-, rfl⟩ := Prod.mk.inj hs
    split at h
    case h_1 => cases h
    case h_2 _ _ _ hw =>
      obtain ⟨c, cs', rfl, h0, h9⟩ := exists_of_readInteger? hw
      exact ⟨c, cs', rfl, mem_numberHeads h0 h9⟩

/-- The text of a number reads as that number.

**Proof sketch.** No character with which a number begins is a gap or closes a list, and each of
them makes `readValue?` read a number. -/
lemma readsAs_of_readNumber? {cs : List Char} {x : Number} {rest : List Char}
    (hlt : rest.length < cs.length)
    (h : readNumber? cs = some (x, rest)) : ReadsAs (number x) cs rest := by
  obtain ⟨c, cs, rfl, hc⟩ := exists_of_readNumber? h
  have hplain : isGap c = false ∧ c ≠ ']' := by
    have hall : numberHeads.all (fun c => !isGap c && c != ']') = true := by decide
    have hc' := List.all_eq_true.1 hall c hc
    simpa using hc'
  have hread (fuel : ℕ) : readValue? (fuel + 1) (c :: cs) =
      (readNumber? (c :: cs)).map (Prod.map number id) := by
    simp only [numberHeads, List.mem_cons, List.not_mem_nil, or_false] at hc
    rcases hc with rfl | rfl | rfl | rfl | rfl | rfl | rfl | rfl | rfl | rfl | rfl <;>
      (rw [readValue?]; rfl)
  refine readsAs_of_forall_succ hplain.1 hplain.2 hlt fun fuel => ?_
  rw [hread, h]
  rfl

/-- Characters that are read as a number in front of whatever does not go on with it read as that
number. -/
lemma readsAs_append {cs : List Char} {x : Number}
    (h : ∀ rest, NumberEnds rest → readNumber? (cs ++ rest) = some (x, rest)) {rest : List Char}
    (hr : NumberEnds rest) : ReadsAs (number x) (cs ++ rest) rest := by
  have hpos : 0 < cs.length := by
    obtain ⟨c, cs', hc, -⟩ := exists_of_readNumber? (h [] numberEnds_nil)
    rw [List.append_nil] at hc
    rw [hc, List.length_cons]
    omega
  refine readsAs_of_readNumber? ?_ (h rest hr)
  rw [List.length_append]
  omega

/-- The text of a name that stands for a value reads as that value. -/
lemma readsAs_null (rest : List Char) : ReadsAs null (write null rest) rest :=
  readsAs_of_forall_succ rfl (by decide) (by simp only [List.length_cons]; omega) fun _ => rfl

/-- The texts of truth values read as them, whatever follows. -/
lemma readsAs_bool (b : Bool) (rest : List Char) : ReadsAs (bool b) (write (bool b) rest) rest := by
  cases b with
  | false | true =>
    refine readsAs_of_forall_succ rfl (by decide) ?_ fun _ => rfl
    simp only [List.length_cons]
    omega

/-- A string takes up characters, at least its two quotes. -/
lemma length_lt_writeString (s : String) (rest : List Char) :
    rest.length < (writeString s rest).length := by
  rw [writeString, List.length_cons]
  induction s.toList with
  | nil =>
    rw [List.foldr_nil, List.length_cons]
    omega
  | cons c cs ih =>
    rw [List.foldr_cons, List.length_append]
    omega

/-- The text of a string reads as that string. -/
lemma readsAs_string (s : String) (rest : List Char) :
    ReadsAs (string s) (write (string s) rest) rest := by
  obtain ⟨cs, hw, hs⟩ := readString?_writeString s rest
  have hlt := length_lt_writeString s rest
  rw [hw] at hlt
  rw [write, hw]
  refine readsAs_of_forall_succ rfl (by decide) hlt fun fuel => ?_
  have hread : readValue? (fuel + 1) ('"' :: cs) = (readString? cs).map (Prod.map string id) := rfl
  rw [hread, hs]
  rfl

/-- The text of an array without items reads as it. -/
lemma readsAs_array_nil (rest : List Char) : ReadsAs (array []) (write (array []) rest) rest :=
  readsAs_of_forall_succ rfl (by decide) (by simp only [List.length_cons]; omega) fun _ => rfl

/-- The text of an object without members reads as it. -/
lemma readsAs_object_nil (rest : List Char) : ReadsAs (object []) (write (object []) rest) rest :=
  readsAs_of_forall_succ rfl (by decide) (by simp only [List.length_cons]; omega) fun _ => rfl

/-! ## Blanks -/

/-- Characters that may be put in front of the parts of a text: they are skipped. -/
structure Blanks (blanks : List Char → List Char) : Prop where
  /-- They are skipped. -/
  skip : ∀ cs, skipGap (blanks cs) = skipGap cs
  /-- Nothing of what follows is lost. -/
  length : ∀ cs, cs.length ≤ (blanks cs).length
  /-- No number goes on with them. -/
  ends : ∀ cs, NumberEnds cs → NumberEnds (blanks cs)

/-- There need not be any blanks between two parts of a value. -/
lemma blanks_id : Blanks id := ⟨fun _ => rfl, fun _ => Nat.le_refl _, fun _ h => h⟩

/-- Blanks in front of a value do not matter. -/
lemma readValue?_congr {cs cs' : List Char} (h : skipGap cs = skipGap cs') (fuel : ℕ) :
    readValue? fuel cs = readValue? fuel cs' := by
  cases fuel with
  | zero => rw [readValue?, readValue?]
  | succ k => rw [readValue?, readValue?, h]

/-- Blanks in front of items do not matter, in whatever number and kind. -/
lemma readItems?_congr {cs cs' : List Char} (h : skipGap cs = skipGap cs') (fuel : ℕ)
    (seen : List Json) :
    readItems? fuel seen cs = readItems? fuel seen cs' := by
  cases fuel with
  | zero => rw [readItems?, readItems?]
  | succ k => rw [readItems?, readItems?, readValue?_congr h]

/-- Blanks in front of members do not matter, in whatever number and kind. -/
lemma readMembers?_congr {cs cs' : List Char} (h : skipGap cs = skipGap cs') (fuel : ℕ)
    (seen : List (String × Json)) : readMembers? fuel seen cs = readMembers? fuel seen cs' := by
  cases fuel with
  | zero => rw [readMembers?, readMembers?]
  | succ k => rw [readMembers?, readMembers?, h]

/-! ## Arrays and objects -/

/-- A *style* of writing what is in an array or an object: each item by itself, and blanks in front
of it, behind the colon of a member, and in front of the end. -/
structure Style where
  /-- An item. -/
  item : Json → List Char → List Char
  /-- Further items of an array and its end. -/
  items : List Json → List Char → List Char
  /-- Further members of an object and its end. -/
  members : List (String × Json) → List Char → List Char
  /-- The blanks in front of an item or a member. -/
  gap : List Char → List Char
  /-- The blanks behind a colon. -/
  colon : List Char → List Char
  /-- The blanks in front of the end. -/
  last : List Char → List Char
  blanks_gap : Blanks gap
  blanks_colon : Blanks colon
  blanks_last : Blanks last
  items_nil : ∀ rest, items [] rest = last (']' :: rest)
  items_cons : ∀ v vs rest, items (v :: vs) rest = ',' :: gap (item v (items vs rest))
  members_nil : ∀ rest, members [] rest = last ('}' :: rest)
  members_cons : ∀ n v ms rest,
    members ((n, v) :: ms) rest =
      ',' :: gap (writeString n (':' :: colon (item v (members ms rest))))

/-- A value whose text in a style reads as it, whatever follows that does not go on with a number.
-/
def Style.Reads (t : Style) (v : Json) : Prop :=
  ∀ rest, NumberEnds rest → ReadsAs v (t.item v rest) rest

namespace Style

variable (t : Style)

/-- Behind an item, another one or the end of the array follows. -/
lemma numberEnds_items (vs : List Json) (rest : List Char) : NumberEnds (t.items vs rest) := by
  cases vs with
  | nil =>
    rw [t.items_nil]
    exact t.blanks_last.ends _ (numberEnds_cons _ (by decide))
  | cons v vs =>
    rw [t.items_cons]
    exact numberEnds_cons _ (by decide)

/-- Behind a member, another one or the end of the object follows. -/
lemma numberEnds_members (ms : List (String × Json)) (rest : List Char) :
    NumberEnds (t.members ms rest) := by
  cases ms with
  | nil =>
    rw [t.members_nil]
    exact t.blanks_last.ends _ (numberEnds_cons _ (by decide))
  | cons m ms =>
    rw [t.members_cons]
    exact numberEnds_cons _ (by decide)

/-- The items of an array read back if each of them does.

**Proof sketch.** Induction on the items. Behind an item there is the end of the list, which is
closed then, or a comma and the next one. Each step takes one off the fuel, and each item has a
character at least. -/
lemma readItems?_items {v : Json} {vs : List Json} (h : ∀ w ∈ v :: vs, t.Reads w)
    (rest : List Char) :
    rest.length < (t.item v (t.items vs rest)).length ∧
    ∀ (seen : List Json) (fuel : ℕ), (t.item v (t.items vs rest)).length ≤ fuel + rest.length →
      readItems? fuel seen (t.item v (t.items vs rest)) =
        some (array (seen.reverse ++ v :: vs), rest) := by
  induction vs generalizing v with
  | nil =>
    obtain ⟨-, hlt, hread⟩ := h v List.mem_cons_self _ (t.numberEnds_items [] rest)
    have hend := t.blanks_last.length (']' :: rest)
    have hclose : skipGap (t.last (']' :: rest)) = ']' :: rest := by
      rw [t.blanks_last.skip, skipGap_cons rfl]
    rw [t.items_nil] at hlt hread ⊢
    rw [List.length_cons] at hend
    refine ⟨by omega, fun seen fuel hf => ?_⟩
    obtain ⟨k, rfl⟩ := Nat.exists_eq_succ_of_ne_zero (n := fuel) (by omega)
    rw [readItems?, hread k (by omega)]
    simp only [hclose, List.reverse_cons]
  | cons w vs ih =>
    obtain ⟨-, hlt, hread⟩ := h v List.mem_cons_self _ (t.numberEnds_items (w :: vs) rest)
    obtain ⟨hlt', hread'⟩ := ih fun x hx => h x (List.mem_cons_of_mem v hx)
    have hgap := t.blanks_gap.length (t.item w (t.items vs rest))
    rw [t.items_cons, List.length_cons] at hlt hread
    rw [t.items_cons]
    refine ⟨by omega, fun seen fuel hf => ?_⟩
    obtain ⟨k, rfl⟩ := Nat.exists_eq_succ_of_ne_zero (n := fuel) (by omega)
    rw [readItems?, hread k (by omega)]
    simp only [skipGap_cons (c := ',') rfl]
    rw [readItems?_congr (t.blanks_gap.skip _), hread' _ k (by omega), List.reverse_cons,
      List.append_assoc, List.singleton_append]

/-- Arrays of items that read back do so.

**Proof sketch.** The bracket opens the list, and the gap behind it is skipped. The first item does
not begin with a closing bracket, so the items are read. -/
lemma readsAs_array {v : Json} {vs : List Json} (h : ∀ w ∈ v :: vs, t.Reads w) (rest : List Char) :
    ReadsAs (array (v :: vs)) ('[' :: t.gap (t.item v (t.items vs rest))) rest := by
  obtain ⟨hlt, hread⟩ := t.readItems?_items h rest
  obtain ⟨c, cs, hw, hgap, hc⟩ := (h v List.mem_cons_self _ (t.numberEnds_items vs rest)).head
  have hlen := t.blanks_gap.length (t.item v (t.items vs rest))
  have hskip : skipGap (t.gap (t.item v (t.items vs rest))) = c :: cs := by
    rw [t.blanks_gap.skip, hw, skipGap_cons hgap]
  have hopen (k : ℕ) : readValue? (k + 1) ('[' :: t.gap (t.item v (t.items vs rest))) =
      readItems? k [] (c :: cs) := by
    rw [readValue?, skipGap_cons rfl]
    simp only [hskip]
    split
    case h_1 he => exact absurd (List.cons.inj he).1 hc
    case h_2 => rfl
  refine ⟨⟨'[', _, rfl, rfl, by decide⟩, by rw [List.length_cons]; omega, fun fuel hf => ?_⟩
  rw [List.length_cons] at hf
  obtain ⟨k, rfl⟩ := Nat.exists_eq_succ_of_ne_zero (n := fuel) (by omega)
  rw [hopen, ← hw]
  exact hread [] k (by omega)

/-- The members of an object read back if the value of each does.

**Proof sketch.** Induction on the members, as for the items of a list. The name in front of each
value is a string, which reads back, and the colon and the gap behind it are skipped. -/
lemma readMembers?_members {n : String} {v : Json} {ms : List (String × Json)}
    (h : ∀ m ∈ (n, v) :: ms, t.Reads m.2) (rest : List Char) :
    rest.length < (t.item v (t.members ms rest)).length ∧
    ∀ (seen : List (String × Json)) (fuel : ℕ), (t.item v (t.members ms rest)).length <
      fuel + rest.length →
      readMembers? fuel seen (writeString n (':' :: t.colon (t.item v (t.members ms rest)))) =
        some (ofMembers (seen.reverse ++ (n, v) :: ms), rest) := by
  induction ms generalizing n v with
  | nil =>
    obtain ⟨-, hlt, hread⟩ := h (n, v) List.mem_cons_self _ (t.numberEnds_members [] rest)
    have hend := t.blanks_last.length ('}' :: rest)
    have hclose : skipGap (t.last ('}' :: rest)) = '}' :: rest := by
      rw [t.blanks_last.skip, skipGap_cons rfl]
    dsimp only at hlt hread
    rw [t.members_nil] at hlt hread ⊢
    rw [List.length_cons] at hend
    refine ⟨by omega, fun seen fuel hf => ?_⟩
    obtain ⟨k, rfl⟩ := Nat.exists_eq_succ_of_ne_zero (n := fuel) (by omega)
    have hvalue := (readValue?_congr (t.blanks_colon.skip _) k).trans (hread k (by omega))
    obtain ⟨text, hw, hname⟩ :=
      readString?_writeString n (':' :: t.colon (t.item v (t.last ('}' :: rest))))
    rw [hw, readMembers?, skipGap_cons rfl]
    simp only [hname, skipGap_cons (c := ':') rfl, hvalue, hclose, List.reverse_cons]
  | cons m ms ih =>
    obtain ⟨n', w⟩ := m
    obtain ⟨-, hlt, hread⟩ :=
      h (n, v) List.mem_cons_self _ (t.numberEnds_members ((n', w) :: ms) rest)
    obtain ⟨hlt', hread'⟩ := ih fun x hx => h x (List.mem_cons_of_mem _ hx)
    have hgap :=
      t.blanks_gap.length (writeString n' (':' :: t.colon (t.item w (t.members ms rest))))
    have hlen := length_lt_writeString n' (':' :: t.colon (t.item w (t.members ms rest)))
    have hcolon := t.blanks_colon.length (t.item w (t.members ms rest))
    dsimp only at hlt hread
    rw [t.members_cons, List.length_cons] at hlt hread
    rw [List.length_cons] at hlen
    rw [t.members_cons]
    refine ⟨by omega, fun seen fuel hf => ?_⟩
    obtain ⟨k, rfl⟩ := Nat.exists_eq_succ_of_ne_zero (n := fuel) (by omega)
    have hvalue := (readValue?_congr (t.blanks_colon.skip _) k).trans (hread k (by omega))
    obtain ⟨text, hw, hname⟩ := readString?_writeString n (':' :: t.colon (t.item v
      (',' :: t.gap (writeString n' (':' :: t.colon (t.item w (t.members ms rest)))))))
    rw [hw, readMembers?, skipGap_cons rfl]
    simp only [hname, skipGap_cons (c := ':') rfl, hvalue, skipGap_cons (c := ',') rfl]
    rw [readMembers?_congr (t.blanks_gap.skip _), hread' _ k (by omega), List.reverse_cons,
      List.append_assoc, List.singleton_append]

/-- Objects of members that read back do so, if they list them as objects do.

**Proof sketch.** The brace opens the object, and the first member begins with a quote, so the
members are read. Putting them together gives the object by assumption. -/
lemma readsAs_object {n : String} {v : Json} {ms : List (String × Json)}
    (ho : ofMembers ((n, v) :: ms) = object ((n, v) :: ms)) (h : ∀ m ∈ (n, v) :: ms, t.Reads m.2)
    (rest : List Char) :
    ReadsAs (object ((n, v) :: ms))
      ('{' :: t.gap (writeString n (':' :: t.colon (t.item v (t.members ms rest))))) rest := by
  obtain ⟨hlt, hread⟩ := t.readMembers?_members h rest
  obtain ⟨cs, hw, -⟩ := readString?_writeString n (':' :: t.colon (t.item v (t.members ms rest)))
  have hname := length_lt_writeString n (':' :: t.colon (t.item v (t.members ms rest)))
  have hgap := t.blanks_gap.length (writeString n (':' :: t.colon (t.item v (t.members ms rest))))
  have hcolon := t.blanks_colon.length (t.item v (t.members ms rest))
  rw [List.length_cons] at hname
  have hskip : skipGap (t.gap (writeString n (':' :: t.colon (t.item v (t.members ms rest))))) =
      '"' :: cs := by
    rw [t.blanks_gap.skip, hw, skipGap_cons rfl]
  have hopen (k : ℕ) : readValue? (k + 1)
      ('{' :: t.gap (writeString n (':' :: t.colon (t.item v (t.members ms rest))))) =
      readMembers? k [] ('"' :: cs) := by
    rw [readValue?, skipGap_cons rfl]
    simp only [hskip]
    rfl
  refine ⟨⟨'{', _, rfl, rfl, by decide⟩, by rw [List.length_cons]; omega, fun fuel hf => ?_⟩
  rw [List.length_cons] at hf
  obtain ⟨k, rfl⟩ := Nat.exists_eq_succ_of_ne_zero (n := fuel) (by omega)
  rw [hopen, ← hw, hread [] k (by omega), ← ho]
  rfl

end Style

/-! ## One line -/

/-- The values whose text reads back: their numbers are whole and binary64 holds them exactly, and
their objects list their members as objects do. -/
inductive Faithful : Json → Prop
  | null : Faithful null
  | bool (b : Bool) : Faithful (bool b)
  | number {z : Int} : z.natAbs ≤ Number.exactLimit → Faithful (number (.whole z))
  | string (s : String) : Faithful (string s)
  | array {items : List Json} : (∀ v ∈ items, Faithful v) → Faithful (array items)
  | object {members : List (String × Json)} : ofMembers members = object members →
    (∀ m ∈ members, Faithful m.2) → Faithful (object members)

/-- On one line there are no blanks. -/
def compactStyle : Style where
  item := write
  items := writeItems
  members := writeMembers
  gap := id
  colon := id
  last := id
  blanks_gap := blanks_id
  blanks_colon := blanks_id
  blanks_last := blanks_id
  items_nil _ := rfl
  items_cons _ _ _ := rfl
  members_nil _ := rfl
  members_cons _ _ _ _ := rfl

/-- The text of a whole number reads as that number. -/
lemma readsAs_whole {z : Int} (h : z.natAbs ≤ Number.exactLimit) {rest : List Char}
    (hr : NumberEnds rest) :
    ReadsAs (number (.whole z)) (write (number (.whole z)) rest) rest :=
  readsAs_append (fun _ => readNumber?_chars h) hr

/-- Values whose numbers are whole read back, on one line.

**Proof sketch.** Induction on the value: each kind has its own lemma, and the items of a list and
the values of an object read back by induction. -/
lemma reads_of_faithful {v : Json} (h : Faithful v) : compactStyle.Reads v := by
  induction h with
  | null => exact fun rest _ => readsAs_null rest
  | bool b => exact fun rest _ => readsAs_bool b rest
  | number hz => exact fun _ hr => readsAs_whole hz hr
  | string s => exact fun rest _ => readsAs_string s rest
  | @array items _ ih =>
    intro rest _
    cases items with
    | nil => exact readsAs_array_nil rest
    | cons v items => exact compactStyle.readsAs_array ih rest
  | @object members ho _ ih =>
    intro rest _
    cases members with
    | nil => exact readsAs_object_nil rest
    | cons m members => exact compactStyle.readsAs_object ho ih rest

/-- A value *reads back* in front of further characters that do not go on with it: with fuel for as
many steps as its text has characters, the reader gives the value and leaves what follows. The text
begins with no blank and closes no array. -/
structure ReadsBack (v : Json) (rest : List Char) : Prop where
  /-- The text begins with a character of its own. -/
  head : ∃ c cs, write v rest = c :: cs ∧ isGap c = false ∧ c ≠ ']'
  /-- The value takes up characters. -/
  length : rest.length < (write v rest).length
  /-- The reader gives the value. -/
  read : ∀ fuel, (write v rest).length ≤ fuel + rest.length →
    readValue? fuel (write v rest) = some (v, rest)

/-- **Values read back** in front of further characters that do not go on with a number.

**Proof sketch.** Induction on the value. The items of an array are read one after the other, and
each leaves the comma or the end behind it; so are the members of an object, with their names in
front. -/
theorem readsBack_of_faithful {v : Json} (h : Faithful v) {rest : List Char}
    (hr : NumberEnds rest) :
    ReadsBack v rest := by
  obtain ⟨hhead, hlength, hread⟩ := reads_of_faithful h rest hr
  exact ⟨hhead, hlength, hread⟩

/-- **The text of a value** is the text of that value and of no other. -/
theorem parse?_compact {v : Json} (h : Faithful v) : parse? v.compact = some v := by
  have hb := readsBack_of_faithful h numberEnds_nil
  rw [parse?, compact, String.toList_ofList, hb.read _ (by omega)]
  rfl

end Json

end DebugWire
