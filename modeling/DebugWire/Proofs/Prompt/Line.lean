import DebugWire.Prompt.Line
import DebugWire.Proofs.Text.Words

set_option relaxedAutoImplicit false
set_option autoImplicit false

/-!
# Lines by their words

A line at the prompt is read by its words. How they are set apart does not matter, and neither does
the letter case of the first one. The argument of `text` is the one exception: it is all that stands
behind the first blank, as it is.

## Main definitions

* `DebugWire.Prompt.AsksForText` — words of which the first is `text`.
* `DebugWire.Prompt.ReadsByWords` — what a line is read by.

## Main results

* `DebugWire.Prompt.parse_of_hasWords` — a line and its words.
* `DebugWire.Prompt.reads_by_words` — any line, with any listing.
-/

namespace DebugWire.Prompt

open Text (AreBlank EndsWord HasWords IsWord SameLetters)

/-- Words *ask for text* if the first one is `text`, in any letter case. -/
def AsksForText (ws : List (List Char)) : Prop := ∃ w ∈ ws.head?, SameLetters w "text".toList

variable {listing : Option Listing} {line line' : List Char} {word word' : String}
    {args : List String}
  {gap w w' rest : List Char} {ws : List (List Char)}

/-! ## Words -/

/-- Words with the same letters have the same lower-case form. -/
lemma lowerCase_ofList_eq_iff :
    Text.lowerCase (String.ofList w) = Text.lowerCase (String.ofList w') ↔ SameLetters w w' := by
  rw [Text.lowerCase, Text.lowerCase, String.ofList_inj, String.toList_ofList, String.toList_ofList]
  rfl

/-- A word is `text` if this is its lower-case form. -/
lemma lowerCase_ofList_eq_text_iff :
    Text.lowerCase (String.ofList w) = "text" ↔ SameLetters w "text".toList := by
  rw [← lowerCase_ofList_eq_iff]
  rfl

/-- **A line is read by its words**, and for the argument of `text` by what stands behind its first
blanks. -/
lemma parse_of_hasWords {s : String} (h : HasWords s.toList ws) :
    parse listing s =
      match ws.map String.ofList with
      | [] => .ok .noop
      | word :: args => parseWords listing (Text.trimStart s.toList) word args := by
  obtain rfl : Text.words (Text.trimStart s.toList) = ws := by
    rw [Text.words_trimStart, Text.words_eq_iff.2 h]
  rfl

/-- A line with a first word is read by this, by the words behind it and by what follows it.

**Proof sketch.** The line has the words of its parts, and trimming takes away the gap in front and
nothing more, because the first word begins with a character that is no blank. -/
lemma parse_cons (hgap : AreBlank gap) (hw : IsWord w) (hrest : EndsWord rest) :
    parse listing (String.ofList (gap ++ w ++ rest)) =
      parseWords listing (w ++ rest) (String.ofList w) ((Text.words rest).map String.ofList) := by
  have hwords : HasWords (gap ++ w ++ rest) (w :: Text.words rest) :=
    .cons hgap hw hrest (Text.words_eq_iff.1 rfl)
  have hhead : ∀ c ∈ (w ++ rest).head?, Text.isBlank c = false := by
    obtain ⟨hne, hplain⟩ := hw
    cases w with
    | nil => exact absurd rfl hne
    | cons c w =>
      rintro _ ⟨⟩
      exact hplain c List.mem_cons_self
  rw [parse_of_hasWords (by rwa [String.toList_ofList]), String.toList_ofList, List.append_assoc,
    Text.trimStart_append hgap hhead]
  rfl

/-- Only the argument of `text` is taken from the line. -/
lemma parseWords_of_ne_text (h : Text.lowerCase word ≠ "text") :
    parseWords listing line word args = parseWords listing line' word args := by
  unfold parseWords
  dsimp only
  split
  all_goals first
    | rfl
    | exact absurd (by assumption) h

/-- The argument of `text` is what stands behind the word and one character. -/
lemma parseWords_of_eq_text (h : Text.lowerCase word = "text") :
    parseWords listing line word args =
      .ok (.commands [.inputString (String.ofList (line.drop (word.length + 1)))]) := by
  unfold parseWords
  rw [h]
  rfl

/-- A first word in another letter case comes to the same, or it is not known. -/
lemma parseWords_of_lowerCase_eq (h : Text.lowerCase word' = Text.lowerCase word)
    (hline : line'.drop (word'.length + 1) = line.drop (word.length + 1)) :
    parseWords listing line' word' args = parseWords listing line word args ∨
      parseWords listing line word args = .error (.unknownCommand word) := by
  unfold parseWords
  dsimp only
  rw [h, hline]
  split
  all_goals first
    | exact .inl rfl
    | exact .inr rfl

/-! ## Lines -/

/-- What lines are read by, with a listing or without. -/
structure ReadsByWords (listing : Option Listing) : Prop where
  /-- Two lines with the same words, of which the first is not `text`, come to the same. -/
  same_words : ∀ {s s' : String} {ws : List (List Char)}, HasWords s.toList ws →
  HasWords s'.toList ws →
    ¬ AsksForText ws → parse listing s = parse listing s'
  /-- A first word that is known may be in any letter case. -/
  same_letters : ∀ {gap w w' rest : List Char}, AreBlank gap → IsWord w → EndsWord rest →
  SameLetters w w' →
    (∀ word, parse listing (String.ofList (gap ++ w ++ rest)) ≠ .error (.unknownCommand word)) →
    parse listing (String.ofList (gap ++ w' ++ rest)) =
      parse listing (String.ofList (gap ++ w ++ rest))
  /-- Behind `text` and one blank, all characters are the text. -/
  text : ∀ {gap w : List Char} {c : Char} (t : String), AreBlank gap → SameLetters w "text".toList →
    Text.isBlank c = true →
    parse listing (String.ofList (gap ++ w ++ c :: t.toList)) = .ok (.commands [.inputString t])

/-- **Lines are read by their words.**

**Proof sketch.** What a line comes to is a function of its words and of what stands behind the
first one, and only `text` makes use of the latter. Words with the same letters are of one length,
so the same is left behind them. -/
theorem reads_by_words (listing : Option Listing) : ReadsByWords listing where
  same_words {s s' ws} h h' htext := by
    rw [parse_of_hasWords h, parse_of_hasWords h']
    cases ws with
    | nil => rfl
    | cons w ws =>
      refine parseWords_of_ne_text fun hw => htext ⟨w, rfl, ?_⟩
      exact lowerCase_ofList_eq_text_iff.1 hw
  same_letters {gap w w' rest} hgap hw hrest h hknown := by
    have hlength : w'.length = w.length := by
      have hlower := congrArg List.length h
      rwa [List.length_map, List.length_map, eq_comm] at hlower
    have hline : (w' ++ rest).drop ((String.ofList w').length + 1) =
        (w ++ rest).drop ((String.ofList w).length + 1) := by
      rw [String.length_ofList, String.length_ofList, List.drop_length_add_append,
        List.drop_length_add_append]
    rw [parse_cons hgap hw hrest] at hknown ⊢
    rw [parse_cons hgap (hw.of_sameLetters h) hrest]
    rcases parseWords_of_lowerCase_eq (lowerCase_ofList_eq_iff.2 h.symm) hline with heq | hunknown
    · exact heq
    · exact absurd hunknown (hknown _)
  text {gap w c} t hgap hw hc := by
    have hword : IsWord w :=
      IsWord.of_sameLetters hw.symm ⟨by decide, by simp [Text.ArePlain, Text.isBlank]⟩
    have hends : EndsWord (c :: t.toList) := by
      rintro _ ⟨⟩
      exact hc
    rw [parse_cons hgap hword hends, parseWords_of_eq_text (lowerCase_ofList_eq_text_iff.2 hw),
      String.length_ofList, List.drop_length_add_append]
    show Except.ok (PromptAction.commands [Command.inputString (String.ofList t.toList)]) = _
    rw [String.ofList_toList]

/-- A line with an ideographic space, of which the blank behind the word is dropped and nothing
else. -/
example : parse none " \ttExT \u3000 a  " = .ok (.commands [.inputString "\u3000 a  "]) := by
  rfl

end DebugWire.Prompt
