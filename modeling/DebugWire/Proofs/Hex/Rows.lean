import DebugWire.Proofs.Hex.Reading
import DebugWire.Proofs.Number.Natural
import Mathlib.Algebra.Order.Floor.Div

set_option relaxedAutoImplicit false
set_option autoImplicit false

/-!
# Dumps, row by row

A dump has one line for every sixteen bytes, the last of which may have fewer. A line is the address
of its first byte, a column of hex of a fixed width, and a column with one character for each byte.
So the hex can be found in it again whatever the characters are, and all columns together read back
as the bytes.

The address is a binary64 number. Where the sum of the base and the offset is none, the nearest one
is shown.

## Main definitions

* `DebugWire.Hex.linesOf`, `DebugWire.Hex.columnOf` — the lines of a text, and the hex column of a
  line.
* `DebugWire.Hex.IsRow` — the parts of a line.
* `DebugWire.Hex.IsAddress` — the text of an address.
* `DebugWire.Hex.ShowsBytes` — a text that shows bytes.

## Main results

* `DebugWire.Hex.getElem?_rowsFrom` — the row of sixteen bytes.
* `DebugWire.Hex.spread_columns` — the hex columns of all rows.
* `DebugWire.Hex.showsBytes_dump` — any bytes, from any base on.
-/

namespace DebugWire.Hex

/-! ## Lines and columns -/

/-- The lines of a text. An empty text has none. -/
def linesOf (text : String) : List (List Char) := if text = "" then [] else text.toList.splitOn '\n'

/-- The hex column of a line: forty-seven characters, behind the first characters without a blank
and two blanks. -/
def columnOf (line : List Char) : List Char := ((line.dropWhile fun c => c != ' ').drop 2).take 47

/-- The hex column of bytes: two digits for each with a blank between them, filled up with blanks.
-/
def column (bytes : Bytes) : List Char :=
  List.rightpad 47 ' ' (List.intercalate [' '] (bytes.map twoDigits))

/-- A character *stands for* a byte: it is the printable character of ASCII with its number, or a
dot if there is none. -/
def StandsFor (b : UInt8) (c : Char) : Prop :=
  if 0x20 ≤ b.toNat ∧ b.toNat ≤ 0x7e then c.toNat = b.toNat else c = '.'

/-- A line is the *row* of bytes at an address: the address, the hex column and a character for each
byte. -/
structure IsRow (address : List Char) (bytes : Bytes) (line : List Char) : Prop where
  /-- The parts of the line. -/
  parts : ∃ shown, line = address ++ [' ', ' '] ++ column bytes ++ [' ', ' ', '|'] ++
    shown ++ ['|'] ∧
    List.Forall₂ StandsFor bytes shown
  /-- The hex column is as wide in every row. -/
  width : (column bytes).length = 47

variable {bytes : Bytes} {c : Char} {cs cs' text joint : List Char} {texts : List (List Char)}
    {n base : ℕ}

/-! ## One row -/

/-- The digits of a row are those of its bytes, joined by blanks. -/
lemma rowChars_eq (bytes : Bytes) :
    rowChars bytes = List.intercalate [' '] (bytes.map twoDigits) := by
  fun_induction rowChars bytes with
  | case1 => rfl
  | case2 b => rw [byteChars_eq]; simp
  | case3 b bs hbs ih =>
    cases bs with
    | nil => exact absurd rfl hbs
    | cons b' bs => rw [ih, byteChars_eq]; simp [List.intercalate_cons_cons]

/-- Two digits for each byte, and one blank less than there are bytes. -/
lemma length_rowChars (bytes : Bytes) : (rowChars bytes).length = 3 * bytes.length - 1 := by
  fun_induction rowChars bytes with
  | case1 => rfl
  | case2 b => rfl
  | case3 b bs hbs ih =>
    have hpos : 0 < bs.length := List.length_pos_iff.2 hbs
    rw [List.length_append, List.length_cons, ih, List.length_cons]
    show 2 + _ = _
    omega

/-- The column of sixteen bytes or fewer is forty-seven characters wide. -/
lemma length_column (h : bytes.length ≤ 16) : (column bytes).length = 47 := by
  rw [column, List.length_rightpad, ← rowChars_eq, length_rowChars]
  omega

/-- The parts of a row: the address, the hex column, and between bars a character for each byte. -/
lemma row_eq (address : Number) (bytes : Bytes) :
    row address bytes = List.leftpad 4 '0' address.hexChars ++ [' ', ' '] ++ column bytes ++
      [' ', ' ', '|'] ++ bytes.map printable ++ ['|'] := by
  rw [row, column, ← rowChars_eq]
  simp [Digits.padLeft, List.leftpad, List.rightpad]

/-- The character that is shown for a byte stands for it: itself if it can be printed, and a point
otherwise. -/
lemma standsFor_printable (b : UInt8) : StandsFor b (printable b) := by
  have hall : ∀ n < 0x7f, (Char.ofNat n).toNat = n := by decide
  have hiff : (0x20 ≤ b ∧ b < 0x7f) ↔ 0x20 ≤ b.toNat ∧ b.toNat ≤ 0x7e :=
    and_congr UInt8.le_iff_toNat_le (UInt8.lt_iff_toNat_lt.trans Nat.lt_succ_iff)
  rw [StandsFor, printable, if_congr hiff rfl rfl]
  split_ifs with h
  · exact hall _ (Nat.lt_succ_of_le h.2)
  · rfl

/-- **A row** of sixteen bytes or fewer has the layout of one, with its address in front. -/
lemma isRow_row (address : Number) (h : bytes.length ≤ 16) :
    IsRow (List.leftpad 4 '0' address.hexChars) bytes (row address bytes) where
  parts := by
    refine ⟨bytes.map printable, row_eq address bytes, ?_⟩
    rw [List.forall₂_map_right_iff, List.forall₂_same]
    exact fun b _ => standsFor_printable b
  width := length_column h

/-! ## Addresses -/

/-- Characters are the *address* that is shown for a natural number: it is rounded, and written in
base sixteen with at least four digits. -/
structure IsAddress (n : ℕ) (address : List Char) : Prop where
  /-- The text of the rounded number. -/
  eq : address = List.leftpad 4 '0' (Number.ofInt n).hexChars
  /-- If that is finite, it is a number of binary64 to which no other is nearer, and the text is its
  digits. -/
  nearest : ∀ m : ℕ, Number.ofInt n = (m : Number) →
    address = List.leftpad 4 '0' (Nat.toDigits 16 m) ∧
    (m : Number).IsBinary64 ∧ ∀ v, Number.OnGrid v → |(n : ℚ) - m| ≤ |(n : ℚ) - v|
  /-- The text is the digits of the natural number itself exactly if binary64 has it. -/
  eq_toDigits_iff : address = List.leftpad 4 '0' (Nat.toDigits 16 n) ↔ (n : Number).IsBinary64
  /-- Binary64 has every natural number up to `2 ^ 53`. -/
  eq_toDigits : n ≤ 2 ^ 53 → address = List.leftpad 4 '0' (Nat.toDigits 16 n)

/-- What is shown for a natural number is its address: the digits of the rounded number in base
sixteen, at least four of them. -/
lemma isAddress_leftpad (n : ℕ) : IsAddress n (List.leftpad 4 '0' (Number.ofInt n).hexChars) where
  eq := rfl
  nearest m h := by
    have hbinary := Number.isBinary64_ofInt n
    rw [h] at hbinary ⊢
    rw [Number.hexChars_natCast]
    exact ⟨rfl, hbinary, fun v hv => Number.abs_sub_le_of_ofInt h hv⟩
  eq_toDigits_iff := Number.leftpad_hexChars_eq_iff n
  eq_toDigits h := (Number.leftpad_hexChars_eq_iff n).2 (Number.isBinary64_whole h)

/-- No blank and no line feed is in an address.

**Proof sketch.** The characters are zeros in front and the digits of the number, or those of the
word for infinity. -/
lemma blank_lt_of_mem_leftpad (h : c ∈ List.leftpad 4 '0' (Number.ofInt n).hexChars) : ' ' < c := by
  have hdigit : ∀ d < 16, ' ' < Nat.digitChar d := by decide
  obtain ⟨m, hm⟩ | hinfinite := Number.ofInt_natCast_cases n
  · rw [hm, Number.hexChars_natCast, ← Digits.text_eq_toDigits (by decide), List.leftpad,
      List.mem_append] at h
    rcases h with h | h
    · rw [List.eq_of_mem_replicate h]
      decide
    · obtain ⟨d, hd, rfl⟩ := List.mem_map.1 h
      exact hdigit d (Digits.lt_of_mem_ofNat (by decide) hd)
  · have hall : (List.leftpad 4 '0' (Number.infinite false).hexChars).all (' ' < ·) = true := by
      decide
    rw [hinfinite] at h
    exact of_decide_eq_true (List.all_eq_true.1 hall c h)

/-- The hex column of a row is that of its bytes.

**Proof sketch.** The address has no blank, so the column begins behind it, and its length is known.
-/
lemma columnOf_row (n : ℕ) (h : bytes.length ≤ 16) :
    columnOf (row (Number.ofInt n) bytes) = column bytes := by
  have haddress : ∀ c ∈ List.leftpad 4 '0' (Number.ofInt n).hexChars, (c != ' ') = true := by
    intro c hc
    refine bne_iff_ne.2 ?_
    rintro rfl
    exact absurd (blank_lt_of_mem_leftpad hc) (by decide)
  rw [columnOf, row_eq]
  simp only [List.append_assoc]
  rw [List.dropWhile_append_of_pos haddress]
  exact List.take_left' (length_column h)

/-- What is in the hex of a row is a blank or a digit of its bytes.

**Proof sketch.** By the recursion of `rowChars`: each byte has its two digits, and a blank stands
between it and the next. -/
lemma of_mem_rowChars (h : c ∈ rowChars bytes) : c = ' ' ∨ c ∈ chars bytes := by
  fun_induction rowChars bytes with
  | case1 => cases h
  | case2 b => exact .inr (by simpa [chars] using h)
  | case3 b bs hbs ih =>
    rw [chars, List.flatMap_cons, ← chars, List.mem_append]
    rw [List.mem_append, List.mem_cons] at h
    rcases h with h | h | h
    · exact .inr (.inl h)
    · exact .inl h
    · exact (ih h).imp_right .inr

/-- What is in the hex column of bytes is a blank or a digit of these. -/
lemma of_mem_column (h : c ∈ column bytes) : c = ' ' ∨ c ∈ chars bytes := by
  rw [column, ← rowChars_eq, List.rightpad, List.mem_append] at h
  rcases h with h | h
  · exact of_mem_rowChars h
  · exact .inl (List.eq_of_mem_replicate h)

/-- No line feed is in a row.

**Proof sketch.** The three parts of a row are the address, the column of digits and the characters
that stand for the bytes. In the third one a byte that would be a line feed is shown as a point. -/
lemma notMem_row (n : ℕ) (bytes : Bytes) : '\n' ∉ row (Number.ofInt n) bytes := by
  have haddress : '\n' ∉ List.leftpad 4 '0' (Number.ofInt n).hexChars := fun h =>
    absurd (blank_lt_of_mem_leftpad h) (by decide)
  have hcolumn : '\n' ∉ column bytes := by
    intro h
    rcases of_mem_column h with h | h
    · exact absurd h (by decide)
    · exact absurd (of_mem_chars h).1 (by decide)
  have hshown : '\n' ∉ bytes.map printable := by
    intro h
    obtain ⟨b, -, hb⟩ := List.mem_map.1 h
    have hstands := standsFor_printable b
    rw [hb, StandsFor] at hstands
    split_ifs at hstands with hprintable
    · exact absurd (hstands ▸ hprintable.1) (by decide)
    · exact absurd hstands (by decide)
  rw [row_eq]
  simp only [List.mem_append, haddress, hcolumn, hshown]
  decide

/-! ## All rows -/

/-- No bytes have no rows, so their dump is empty. -/
lemma rowsFrom_nil (base : Number) (offset : ℕ) : rowsFrom base offset [] = [] := by
  rw [rowsFrom]
  rfl

/-- **The rows** of bytes: each has the sixteen bytes behind those of the rows in front of it, the
last one what is left of them.

**Proof sketch.** Induction along the rows. The first one has the bytes at the offset, and the
others are those of what is left behind sixteen bytes, with the offset moved on. -/
lemma getElem?_rowsFrom (base offset : ℕ) (bytes : Bytes) (i : ℕ) :
    (rowsFrom base offset bytes)[i]? =
      if 16 * i < bytes.length then
        some (row (Number.ofInt (base + offset + 16 * i : ℕ)) ((bytes.drop (16 * i)).take 16))
      else none := by
  fun_induction rowsFrom base offset bytes generalizing i with
  | case1 offset bytes h => simp [List.isEmpty_iff.1 h]
  | case2 offset bytes h ih =>
    cases i with
    | zero =>
      have hpos : 0 < bytes.length := List.length_pos_iff.2 (by simpa using h)
      simp [hpos, Number.natCast_add_eq_ofInt]
    | succ i =>
      rw [List.getElem?_cons_succ, ih, List.length_drop, List.drop_drop]
      have hlt : 16 * i < bytes.length - 16 ↔ 16 * (i + 1) < bytes.length := by omega
      have hdrop : 16 + 16 * i = 16 * (i + 1) := by omega
      have hoffset : base + (offset + 16) + 16 * i = base + offset + 16 * (i + 1) := by omega
      simp only [hlt, hdrop, hoffset]

/-- There is a row for every sixteen bytes, and one for what is left of them. -/
lemma length_rowsFrom (base : Number) (offset : ℕ) (bytes : Bytes) :
    (rowsFrom base offset bytes).length = bytes.length ⌈/⌉ 16 := by
  rw [Nat.ceilDiv_eq_add_pred_div]
  fun_induction rowsFrom base offset bytes with
  | case1 offset bytes h => simp [List.isEmpty_iff.1 h]
  | case2 offset bytes h ih =>
    have hpos : 0 < bytes.length := List.length_pos_iff.2 (by simpa using h)
    rw [List.length_cons, ih, List.length_drop]
    omega

/-- Each of the rows is one of some bytes at the address of a natural number. -/
lemma exists_of_mem_rows {line : List Char} (h : line ∈ rows base bytes) :
    ∃ (n : ℕ) (shown : Bytes), line = row (Number.ofInt n) shown := by
  obtain ⟨i, hi⟩ := List.mem_iff_getElem?.1 h
  rw [rows, getElem?_rowsFrom, Option.ite_none_right_eq_some] at hi
  exact ⟨_, _, (Option.some.inj hi.2).symm⟩

/-- **The lines of a dump** are its rows.

**Proof sketch.** The rows have no line feed in them, so splitting what is joined with line feeds
gives them back. The text is not empty because no row is. -/
lemma linesOf_dump (base : ℕ) (bytes : Bytes) : linesOf (dump base bytes) = rows base bytes := by
  rcases eq_or_ne (rows base bytes) [] with hnil | hne
  · rw [dump, hnil]
    rfl
  have hmem : ∀ line ∈ rows base bytes, '\n' ∉ line := by
    intro line hline
    obtain ⟨n, shown, rfl⟩ := exists_of_mem_rows hline
    exact notMem_row n shown
  have hsplit := List.splitOn_intercalate '\n' hmem hne
  have htext : dump base bytes ≠ "" := by
    intro h
    have hjoined : List.intercalate ['\n'] (rows base bytes) = [] := by
      rw [← String.toList_ofList (l := List.intercalate _ _)]
      exact congrArg String.toList h
    -- A row is never empty, so the rows are not one empty line.
    have hempty : [] ∈ rows base bytes := by
      rw [← hsplit, hjoined]
      exact List.mem_singleton.2 rfl
    obtain ⟨n, shown, hrow⟩ := exists_of_mem_rows hempty
    rw [row_eq] at hrow
    simp at hrow
  rw [linesOf, if_neg htext, dump, String.toList_ofList, hsplit]

/-! ## Reading a dump -/

/-- Characters that only separate are a spread of no digits. -/
lemma spread_nil (h : ∀ c ∈ cs, isSeparator c = true) : Spread [] cs := by
  induction cs with
  | nil => exact .nil
  | cons c cs ih =>
    obtain ⟨hc, hcs⟩ := List.forall_mem_cons.1 h
    exact .gap hc (ih hcs)

/-- One more text in front of texts that are joined by separators. -/
lemma Spread.intercalate_cons (hjoint : ∀ c ∈ joint, isSeparator c = true) (h : Spread cs text)
    (h' : Spread cs' (List.intercalate joint texts)) :
    Spread (cs ++ cs') (List.intercalate joint (text :: texts)) := by
  cases texts with
  | nil =>
    cases h'
    simpa using h
  | cons text' texts =>
    rw [List.intercalate_cons_cons, List.append_assoc]
    exact h.append ((spread_nil hjoint).append h')

/-- The digits of bytes are spread over their hex column.

**Proof sketch.** Induction on the bytes: the digits of each stand together, with a blank between
those of two. Behind them there are only the blanks that fill the column up. -/
lemma spread_column (bytes : Bytes) : Spread (chars bytes) (column bytes) := by
  have hblanks (k : ℕ) : Spread [] (List.replicate k ' ') := by
    refine spread_nil fun c hc => ?_
    rw [List.eq_of_mem_replicate hc]
    rfl
  have hblank : ∀ c ∈ [' '], isSeparator c = true := List.forall_mem_singleton.2 rfl
  have hjoined : Spread (chars bytes) (List.intercalate [' '] (bytes.map twoDigits)) := by
    induction bytes with
    | nil => exact .nil
    | cons b bytes ih =>
      rw [chars, List.flatMap_cons, ← chars, byteChars_eq]
      exact Spread.intercalate_cons hblank (.refl _) ih
  have h := hjoined.append (hblanks (47 - (List.intercalate [' '] (bytes.map twoDigits)).length))
  rwa [List.append_nil] at h

/-- **The digits of bytes** are spread over the hex columns of all rows, which separators join.

**Proof sketch.** By the recursion of `rowsFrom`: the column of each row has the digits of its
bytes, and the joints between the rows separate. -/
lemma spread_columns (hjoint : ∀ c ∈ joint, isSeparator c = true) (base offset : ℕ)
    (bytes : Bytes) :
    Spread (chars bytes) (List.intercalate joint ((rowsFrom base offset bytes).map columnOf)) := by
  fun_induction rowsFrom base offset bytes with
  | case1 offset bytes h =>
    rw [List.isEmpty_iff.1 h]
    exact .nil
  | case2 offset bytes h ih =>
    have hsplit : chars bytes = chars (bytes.take 16) ++ chars (bytes.drop 16) := by
      rw [chars, chars, chars, ← List.flatMap_append, List.take_append_drop]
    rw [hsplit, List.map_cons, Number.natCast_add_eq_ofInt,
      columnOf_row _ (List.length_take_le 16 bytes)]
    exact Spread.intercalate_cons hjoint (spread_column _) ih

/-! ## Dumps -/

/-- A text *shows* bytes that begin at a base. -/
structure ShowsBytes (base : ℕ) (bytes : Bytes) (text : String) : Prop where
  /-- It has a line for every sixteen bytes, begun or complete. -/
  length_lines : (linesOf text).length = bytes.length ⌈/⌉ 16
  /-- A line is the row of its bytes, at the base and the number of bytes in front of them. -/
  row : ∀ i line, (linesOf text)[i]? = some line →
    ∃ address, IsAddress (base + 16 * i) address ∧
      IsRow address ((bytes.drop (16 * i)).take 16) line
  /-- The hex columns, with separators between them or without, read back as the bytes. -/
  reads_back : ∀ joint, (∀ c ∈ joint, isSeparator c = true) →
    parse? (String.ofList (List.intercalate joint ((linesOf text).map columnOf))) = some bytes
  /-- For no bytes it is empty. -/
  eq_empty : bytes = [] → text = ""

/-- **A dump shows its bytes.**

**Proof sketch.** The lines of a dump are its rows, for there is no line feed in one. Each row is
that of its sixteen bytes, and the digits of all bytes are spread over the columns. -/
theorem showsBytes_dump (base : ℕ) (bytes : Bytes) : ShowsBytes base bytes (dump base bytes) where
  length_lines := by rw [linesOf_dump, rows, length_rowsFrom]
  row i line h := by
    rw [linesOf_dump, rows, getElem?_rowsFrom, Option.ite_none_right_eq_some, Nat.add_zero] at h
    obtain ⟨-, hline⟩ := h
    refine ⟨_, isAddress_leftpad _, ?_⟩
    rw [← Option.some.inj hline]
    exact isRow_row _ (List.length_take_le 16 _)
  reads_back joint hjoint := by
    rw [linesOf_dump]
    exact parse?_ofList_of_spread (spread_columns hjoint base 0 bytes)
  eq_empty h := by
    rw [h, dump, rows, rowsFrom_nil]
    rfl

/-- **The sum of base and offset** is not what every line begins with: from the base `2 ^ 53 - 1`
on, the second line does not.

**Proof sketch.** The sum `2 ^ 53 + 15` is halfway between two numbers of binary64, and is rounded
to `2 ^ 53 + 16`. -/
theorem not_begins_with_sum_of_far_base :
    ¬ ∀ line ∈ (linesOf (dump (9007199254740991 : ℕ) (List.replicate 17 0)))[1]?,
      List.leftpad 4 '0' (Nat.toDigits 16 (9007199254740991 + 16 * 1)) <+: line := by
  have hrounded : Number.ofInt (9007199254740991 + 0 + 16 * 1 : ℕ) = (9007199254741008 : ℕ) := by
    decide +kernel
  intro h
  rw [linesOf_dump, rows, getElem?_rowsFrom, hrounded] at h
  have hline := h _ rfl
  rw [row_eq, Number.hexChars_natCast] at hline
  revert hline
  decide +kernel

/-- The characters of a row may look like its other parts. -/
example :
    dump 0x10 [0x7c, 0x20, 0x0a] =
      "0010  7c 20 0a                                         || .|" := by
  decide +kernel

end DebugWire.Hex
