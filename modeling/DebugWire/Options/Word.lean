import DebugWire.Number.Literal

set_option autoImplicit false

/-!
# Words of a command line

What a single word of a command line is: an option with or without a value, a group of letters, the
end of the options, or a word that belongs to no option.

## Main definitions

* `DebugWire.OptionWord` — what a word is.
* `DebugWire.OptionWord.of` — reads a word.
* `DebugWire.OptionWord.isDashed`, `DebugWire.OptionWord.isOption` — whether a word is no value of
  an option in front of it.
-/

namespace DebugWire

/-- What a word of a command line is. -/
inductive OptionWord where
  /-- A word that belongs to no option. -/
  | plain
  /-- The end of the options. -/
  | stop
  /-- An option with a value behind an equals sign. -/
  | equal (name value : String)
  /-- An option that is switched off. -/
  | off (name : String)
  /-- An option that may take the next word. -/
  | long (name : String)
  /-- An option of one letter and a member, with a value behind an equals sign. -/
  | memberEqual (name value : String)
  /-- An option of one letter and a member, which may take the next word. -/
  | member (name : String)
  /-- A group of letters. -/
  | letters (cs : List Char)

namespace OptionWord

/-! ## Numbers -/

/-- Whether characters are digits with at most one point, which has digits behind it. -/
def isPlainNumber (cs : List Char) : Bool :=
  let (before, rest) := Number.spanDigits cs
  match rest with
  | [] => !before.isEmpty
  | c :: rest => c = '.' && Number.areDigits rest

/-- Whether a word is a negative number. -/
def isNegative : List Char → Bool
  | '-' :: cs => isPlainNumber cs
  | _ => false

/-- A number as it may follow a letter at once: an optional minus, digits, an optional point with
digits and an optional exponent. -/
def isAttachedNumber (cs : List Char) : Bool :=
  let cs := match cs with
    | '-' :: cs => cs
    | cs => cs
  let (before, rest) := Number.spanDigits cs
  let exponent : List Char → Bool
    | [] => true
    | 'e' :: '-' :: cs => Number.areDigits cs
    | 'e' :: cs => Number.areDigits cs
    | _ => false
  !before.isEmpty && match rest with
    | '.' :: rest =>
      let (after, rest) := Number.spanDigits rest
      !after.isEmpty && exponent rest
    | rest => exponent rest

/-! ## Words that are no values -/

/-- Whether a word is taken for an option. -/
def isDashed (word : String) : Bool :=
  word.toList.head? = some '-' && !isNegative word.toList

/-- Whether a word starts with a dash, as a number may. -/
def startsWithDash (word : String) : Bool := word.toList.head? = some '-'

/-- Whether a word behind a group of letters is taken for an option. -/
def isOption (word : String) : Bool :=
  match word.toList with
  | '-' :: '-' :: c :: _ => c ≠ '-'
  | '-' :: c :: cs => c ≠ '-' && !isNegative ('-' :: c :: cs)
  | _ => false

/-! ## Parts of words -/

/-- Whether a character ends a line. -/
def isLineEnd (c : Char) : Bool := c = '\n' || c = '\r' || c = '\u2028' || c = '\u2029'

/-- Whether a character may stand in a name. -/
def isNameChar (c : Char) : Bool := c.isAlphanum || c = '_'

/-- A text without the marks that quote it. -/
def unquote (s : String) : String :=
  match s.toList with
  | q :: c :: rest =>
    if (q = '"' ∨ q = '\'') ∧
      (c :: rest).getLast? = some q then String.ofList (c :: rest).dropLast else s
  | _ => s

/-- A name and a value with an equals sign between them, the first one. -/
def splitEqual (cs : List Char) : String × String :=
  (String.ofList (cs.takeWhile (· ≠ '=')), String.ofList ((cs.dropWhile (· ≠ '=')).drop 1))

/-! ## Reading a word -/

/-- What characters behind two dashes are. A name ends with its line, or in front of an equals sign,
unless they start with it; if another one follows then, the name is a dash. -/
def ofLong (cs : List Char) : OptionWord :=
  let line := cs.takeWhile fun c => !isLineEnd c
  if line.tail.contains '=' then
    if cs.head? = some '=' then equal "-" (String.ofList cs.tail)
    else equal (splitEqual cs).1 (splitEqual cs).2
  else
    match line with
    | [] => plain
    | 'n' :: 'o' :: '-' :: c :: cs => off (String.ofList (c :: cs))
    | cs => long (String.ofList cs)

/-- What characters behind a single dash are. -/
def ofShort : List Char → OptionWord
  | c :: '.' :: d :: cs =>
    if cs.contains '=' then
      memberEqual (splitEqual (c :: '.' :: d :: cs)).1 (splitEqual (c :: '.' :: d :: cs)).2
    else member (String.ofList (c :: '.' :: d :: cs))
  | cs => letters cs

/-- What a word is. Three dashes or more with no name behind them are no option, and nor is a
negative number. -/
def of (word : String) : OptionWord :=
  let cs := word.toList
  let behind := cs.dropWhile (· = '-')
  if word = "--" then stop
  else if 3 ≤ cs.length - behind.length ∧ (behind = [] ∨ behind.head? = some '=') then plain
  else
    match cs with
    | '-' :: '-' :: cs => ofLong cs
    | '-' :: c :: cs => if isNegative ('-' :: c :: cs) then plain else ofShort (c :: cs)
    | _ => plain

end OptionWord

end DebugWire
