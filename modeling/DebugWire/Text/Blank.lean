set_option autoImplicit false

/-!
# Blanks and words

Blank characters are the Unicode space separators, the tabulators and line ends of ASCII, the line
and paragraph separator, and the byte order mark. The control `U+0085` and the zero width space are
not blank.

## Main definitions

* `DebugWire.Text.isBlank` — the blank characters.
* `DebugWire.Text.trimStart`, `DebugWire.Text.trim` — a text without blanks at its ends.
* `DebugWire.Text.words` — the maximal runs of characters that are not blank.
-/

namespace DebugWire.Text

/-- Whether a character separates words. -/
def isBlank (c : Char) : Bool :=
  let n := c.toNat
  (0x09 ≤ n && n ≤ 0x0d) || n == 0x20 || n == 0xa0 || n == 0x1680 || (0x2000 ≤ n && n ≤ 0x200a)
    || n == 0x2028 || n == 0x2029 || n == 0x202f || n == 0x205f || n == 0x3000 || n == 0xfeff

/-- The characters from the first that is not blank. -/
def trimStart (cs : List Char) : List Char := cs.dropWhile isBlank

/-- The characters up to the last that is not blank. -/
def trimEnd (cs : List Char) : List Char := (cs.reverse.dropWhile isBlank).reverse

/-- The characters between the first and the last that are not blank, both included. -/
def trim (cs : List Char) : List Char := trimEnd (trimStart cs)

/-- The words in front of which the characters `word`, in reverse order, stand already. -/
def wordsFrom (word : List Char) : List Char → List (List Char)
  | [] => if word.isEmpty then [] else [word.reverse]
  | c :: cs =>
    if isBlank c then
      if word.isEmpty then wordsFrom [] cs else word.reverse :: wordsFrom [] cs
    else wordsFrom (c :: word) cs

/-- The maximal runs of characters that are not blank. -/
def words (cs : List Char) : List (List Char) := wordsFrom [] cs

/-- The lower-case form of a character as far as it is a letter of ASCII; the Kelvin sign counts as
`K`. No other character has a letter of ASCII as its lower-case form. -/
def lower (c : Char) : Char :=
  if c = '\u212a' then 'k' else c.toLower

/-- A text with its letters in lower case, see `lower`. -/
def lowerCase (s : String) : String := String.ofList (s.toList.map lower)

/-- The parts of a text between the occurrences of a separator, in front of which the characters
`part`, in reverse order, stand already. -/
def splitFrom (separator : Char) (part : List Char) : List Char → List (List Char)
  | [] => [part.reverse]
  | c :: cs =>
    if c = separator then part.reverse :: splitFrom separator [] cs
    else splitFrom separator (c :: part) cs

/-- The parts of a text between the occurrences of a separator, one more than there are occurrences.
-/
def splitAt (separator : Char) (cs : List Char) : List (List Char) := splitFrom separator [] cs

end DebugWire.Text
