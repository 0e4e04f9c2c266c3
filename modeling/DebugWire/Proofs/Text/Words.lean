import DebugWire.Text.Blank
import Mathlib.Data.List.DropRight
import Mathlib.Tactic.Lemma
import Mathlib.Tactic.SplitIfs

set_option relaxedAutoImplicit false
set_option autoImplicit false

/-!
# Words between blanks

What the words of a text are is said here by the text alone: blanks, then a word, then what follows
it, which begins with a blank or is empty. A text has one list of words. Blanks at its ends belong
to none of them, so taking them away changes nothing.

## Main definitions

* `DebugWire.Text.AreBlank`, `DebugWire.Text.IsWord` — blanks, and words.
* `DebugWire.Text.HasWords` — a text and its words.
* `DebugWire.Text.SameLetters` — texts that are the same but for the letter case.

## Main results

* `DebugWire.Text.words_eq_iff` — the words that are found are the words of the text.
* `DebugWire.Text.trim_append_append`, `DebugWire.Text.exists_trim` — a text and what stands around
  it.
* `DebugWire.Text.IsWord.of_sameLetters` — a word in another letter case.
-/

namespace DebugWire.Text

/-! ## Blanks and words -/

/-- Characters that are all blank. -/
def AreBlank (cs : List Char) : Prop := ∀ c ∈ cs, isBlank c = true

/-- Characters without a blank. -/
def ArePlain (cs : List Char) : Prop := ∀ c ∈ cs, isBlank c = false

/-- A word has characters, and none of them is blank. -/
structure IsWord (w : List Char) : Prop where
  /-- It has characters. -/
  ne_nil : w ≠ []
  /-- None of them is blank. -/
  plain : ArePlain w

/-- A word ends in front of characters of which the first is blank, and in front of none. -/
def EndsWord (cs : List Char) : Prop := ∀ c ∈ cs.head?, isBlank c = true

/-- A text *has words*: it is blank and has none, or there is a first word behind blanks, it ends,
and the rest has the other words. -/
inductive HasWords : List Char → List (List Char) → Prop
  | nil {gap : List Char} : AreBlank gap → HasWords gap []
  | cons {gap w rest : List Char} {ws : List (List Char)} :
      AreBlank gap → IsWord w → EndsWord rest →
    HasWords rest ws → HasWords (gap ++ w ++ rest) (w :: ws)

variable {c : Char} {cs gap w rest : List Char} {ws : List (List Char)}

/-- A blank is put in front of blanks, which leaves nothing but blanks. -/
lemma AreBlank.cons (hc : isBlank c = true) (h : AreBlank cs) : AreBlank (c :: cs) :=
  List.forall_mem_cons.2 ⟨hc, h⟩

/-- A blank is put in front of a text. -/
lemma HasWords.cons_blank (hc : isBlank c = true) (h : HasWords cs ws) : HasWords (c :: cs) ws := by
  cases h with
  | nil hgap => exact .nil (hgap.cons hc)
  | cons hgap hw hrest h => exact .cons (hgap.cons hc) hw hrest h

/-! ## Finding words -/

/-- Words are found behind the characters of a first one that have been seen.

**Proof sketch.** Induction on the text. A blank ends the word that was begun, if one was, and is
put in front of the rest; any other character goes on with it. -/
lemma hasWords_wordsFrom (seen : List Char) (hseen : ArePlain seen) (cs : List Char) :
    HasWords (seen.reverse ++ cs) (wordsFrom seen cs) := by
  have hword {seen : List Char} (hne : ¬ seen.isEmpty = true) (hseen : ArePlain seen) :
      IsWord seen.reverse :=
    ⟨by simpa using hne, fun c hc => hseen c (List.mem_reverse.1 hc)⟩
  induction cs generalizing seen with
  | nil =>
    rw [wordsFrom]
    split_ifs with hempty
    · rw [List.isEmpty_iff.1 hempty]
      exact .nil nofun
    · exact @HasWords.cons [] _ _ _ nofun (hword hempty hseen) nofun (.nil nofun)
  | cons c cs ih =>
    rw [wordsFrom]
    split_ifs with hc hempty
    · rw [List.isEmpty_iff.1 hempty]
      exact (ih [] nofun).cons_blank hc
    · have hends : EndsWord (c :: cs) := by
        rintro _ ⟨⟩
        exact hc
      exact @HasWords.cons [] _ _ _ nofun (hword hempty hseen) hends ((ih [] nofun).cons_blank hc)
    · have hplain : ArePlain (c :: seen) := List.forall_mem_cons.2 ⟨Bool.eq_false_iff.2 hc, hseen⟩
      have h := ih (c :: seen) hplain
      rwa [List.reverse_cons, List.append_assoc] at h

/-- Blanks in front of a text make no words. -/
lemma words_append_of_areBlank (h : AreBlank gap) (cs : List Char) :
    words (gap ++ cs) = words cs := by
  induction gap with
  | nil => rfl
  | cons c gap ih =>
    obtain ⟨hc, hgap⟩ := List.forall_mem_cons.1 h
    rw [List.cons_append, words, wordsFrom, if_pos hc]
    exact ih hgap

/-- A word that was begun goes on up to its end.

**Proof sketch.** Induction on the word: its characters are put to what was seen, and the word ends
at the blank behind it or with the text. -/
lemma wordsFrom_append (seen : List Char) (hw : ArePlain w) (hne : seen ≠ [] ∨ w ≠ [])
    (hrest : EndsWord rest) :
    wordsFrom seen (w ++ rest) = (seen.reverse ++ w) :: words rest := by
  induction w generalizing seen with
  | nil =>
    have hempty : ¬ seen.isEmpty = true := by simpa using hne
    rw [List.nil_append, List.append_nil]
    cases rest with
    | nil => rw [wordsFrom, if_neg hempty]; rfl
    | cons c rest =>
      have hc : isBlank c = true := hrest c rfl
      rw [wordsFrom, if_pos hc, if_neg hempty, words, wordsFrom, if_pos hc]
      rfl
  | cons c w ih =>
    obtain ⟨hc, hw⟩ := List.forall_mem_cons.1 hw
    rw [List.cons_append, wordsFrom, if_neg (by rw [hc]; exact Bool.false_ne_true),
      ih (c :: seen) hw (.inl (List.cons_ne_nil _ _)), List.reverse_cons, List.append_assoc]
    rfl

/-- **The words that are found** are those that the text has.

**Proof sketch.** What is found has the words of the text, by the recursion of `wordsFrom`. For the
other direction, by induction on the words that the text has: blanks are skipped, and the first word
goes up to the next blank. -/
theorem words_eq_iff : words cs = ws ↔ HasWords cs ws := by
  constructor
  · rintro rfl
    exact hasWords_wordsFrom [] nofun cs
  · intro h
    induction h with
    | nil hgap =>
      exact (congrArg words (List.append_nil _).symm).trans (words_append_of_areBlank hgap [])
    | cons hgap hw hrest _ ih =>
      rw [List.append_assoc, words_append_of_areBlank hgap, words,
        wordsFrom_append [] hw.plain (.inr hw.ne_nil) hrest, ih]
      rfl

/-! ## Blanks at the ends -/

/-- The blanks that are taken away in front are all that is taken away. -/
lemma exists_trimStart (cs : List Char) : ∃ gap, AreBlank gap ∧ cs = gap ++ trimStart cs :=
  ⟨cs.takeWhile isBlank, fun _ hc => List.mem_takeWhile_imp hc,
    List.takeWhile_append_dropWhile.symm⟩

/-- The blanks that are taken away at the end. -/
lemma exists_trimEnd (cs : List Char) : ∃ gap, AreBlank gap ∧ cs = trimEnd cs ++ gap :=
  ⟨cs.rtakeWhile isBlank, fun _ hc => List.mem_rtakeWhile_imp hc,
    (List.rdropWhile_append_rtakeWhile ..).symm⟩

/-- **What stands around a text** that was trimmed is blank. -/
theorem exists_trim (cs : List Char) :
    ∃ before after, AreBlank before ∧ AreBlank after ∧ cs = before ++ trim cs ++ after := by
  obtain ⟨before, hbefore, hstart⟩ := exists_trimStart cs
  obtain ⟨after, hafter, hend⟩ := exists_trimEnd (trimStart cs)
  exact ⟨before, after, hbefore, hafter, by rw [trim, List.append_assoc, ← hend, ← hstart]⟩

/-- Blanks in front of a character that is not blank are taken away. -/
lemma trimStart_append (hgap : AreBlank gap) (hcs : ∀ c ∈ cs.head?, isBlank c = false) :
    trimStart (gap ++ cs) = cs := by
  rw [trimStart, List.dropWhile_append_of_pos hgap]
  cases cs with
  | nil => rfl
  | cons c cs => exact List.dropWhile_cons_of_neg (by simp [hcs c rfl])

/-- **What is left** of a text without blanks, with blanks around it, is this text.

**Proof sketch.** If nothing stands between the blanks then all characters are blanks. Otherwise the
text in between begins and ends with characters that are none, so just the blanks around it are
dropped. -/
theorem trim_append_append {before core after : List Char} (hbefore : AreBlank before)
    (hcore : ArePlain core) (hafter : AreBlank after) : trim (before ++ core ++ after) = core := by
  cases core with
  | nil =>
    have hblank : AreBlank (before ++ after) := List.forall_mem_append.2 ⟨hbefore, hafter⟩
    have hstart : trimStart (before ++ after ++ []) = [] := trimStart_append hblank nofun
    rw [List.append_nil] at hstart
    rw [List.append_nil, trim, hstart]
    rfl
  | cons c core =>
    have hhead : ∀ x ∈ ((c :: core) ++ after).head?, isBlank x = false := by
      rintro _ ⟨⟩
      exact hcore c List.mem_cons_self
    have hlast : ∀ x ∈ (c :: core).reverse.head?, isBlank x = false := fun x hx =>
      hcore x (List.mem_reverse.1 (List.mem_of_mem_head? hx))
    have hend := trimStart_append (fun x hx => hafter x (List.mem_reverse.1 hx)) hlast
    rw [List.append_assoc, trim, trimStart_append hbefore hhead, trimEnd, List.reverse_append]
    exact (congrArg List.reverse hend).trans (List.reverse_reverse _)

/-- A text without blanks in front has the same words. -/
lemma words_trimStart (cs : List Char) : words (trimStart cs) = words cs := by
  obtain ⟨gap, hgap, h⟩ := exists_trimStart cs
  calc words (trimStart cs) = words (gap ++ trimStart cs) := (words_append_of_areBlank hgap _).symm
    _ = words cs := by rw [← h]

/-! ## Letter case -/

/-- A character in lower case: the Kelvin sign, a capital of ASCII, or any other, which stays as it
is.

**Proof sketch.** By the two branches of `lower`. The range of the capitals is small enough to give
the statement for each of them by its number. -/
lemma lower_cases {P : Char → Char → Prop} (hkelvin : P '\u212a' 'k')
    (hcapital : ∀ n < 91, 65 ≤ n → P (Char.ofNat n) (Char.ofNat n).toLower) (hother : ∀ c, P c c)
    (c : Char) :
    P c (lower c) := by
  rw [lower]
  split_ifs with hk
  · rwa [hk]
  by_cases hc : c.val ≥ 'A'.val ∧ c.val ≤ 'Z'.val
  · have h := hcapital c.toNat (Nat.lt_succ_of_le hc.2) hc.1
    rwa [Char.ofNat_toNat] at h
  · have hsame : c.toLower = c := dif_neg hc
    rw [hsame]
    exact hother c

/-- No letter case of a character is blank, unless it is. -/
lemma isBlank_lower (c : Char) : isBlank (lower c) = isBlank c :=
  lower_cases (P := fun c c' => isBlank c' = isBlank c) rfl (by decide) (fun _ => rfl) c

/-- Characters that are the same but for the letter case. -/
def SameLetters (w w' : List Char) : Prop := w.map lower = w'.map lower

/-- A word stays one in any letter case, as no letter becomes a blank. -/
lemma IsWord.of_sameLetters {w w' : List Char} (h : SameLetters w w') (hw : IsWord w) :
    IsWord w' where
  ne_nil := by
    rintro rfl
    exact hw.ne_nil (List.map_eq_nil_iff.1 h)
  plain c hc := by
    have hc' : lower c ∈ w.map lower := h ▸ List.mem_map_of_mem hc
    obtain ⟨d, hd, he⟩ := List.mem_map.1 hc'
    rw [← isBlank_lower, ← he, isBlank_lower]
    exact hw.plain d hd

end DebugWire.Text
