import DebugWire.Json.Basic
import DebugWire.Text.Units

set_option autoImplicit false

/-!
# Reading JSON

The reader takes one value with blanks around it and refuses everything else. Blanks are the space,
the tabulator and the two line ends. A string may hold any character from `U+0020` on but the quote
and the backslash, and the escapes; two escapes that form a surrogate pair give one character, and
one that is no part of a pair gives the replacement character. Numbers are rounded to binary64.

## Main definitions

* `DebugWire.Json.readString?` — the rest of a string behind its first quote.
* `DebugWire.Json.readNumber?` — a number.
* `DebugWire.Json.readValue?` — a value and what follows it.
* `DebugWire.Json.parse?` — the value that a whole text is.
-/

namespace DebugWire.Json

/-! ## Blanks -/

/-- Whether a character may stand between the parts of a JSON text. -/
def isGap (c : Char) : Bool := c == ' ' || c == '\t' || c == '\n' || c == '\r'

/-- The characters from the first that is no blank. -/
def skipGap (cs : List Char) : List Char := cs.dropWhile isGap

/-! ## Strings -/

/-- The character that a letter behind a backslash stands for. -/
def unescape? (c : Char) : Option Char :=
  if c = '"' ∨ c = '\\' ∨ c = '/' then some c
  else if c = 'b' then some '\x08'
  else if c = 'f' then some '\x0c'
  else if c = 'n' then some '\n'
  else if c = 'r' then some '\r'
  else if c = 't' then some '\t'
  else none

/-- The number that four digits in base sixteen stand for. -/
def readUnit? (a b c d : Char) : Option Nat := Digits.readHex? [a, b, c, d]

/-- The characters of a string up to its last quote, behind the characters `seen` in reverse order,
and what follows. -/
def readStringFrom? (seen : List Char) : List Char → Option (List Char × List Char)
  | '"' :: cs => some (seen.reverse, cs)
  | '\\' :: 'u' :: a :: b :: c :: d :: cs =>
    match readUnit? a b c d with
    | none => none
    | some u =>
      match cs with
      | '\\' :: 'u' :: e :: f :: g :: h :: cs' =>
        match readUnit? e f g h with
        | none => none
        | some w =>
          if Units.isHighSurrogate u &&
            Units.isLowSurrogate w then readStringFrom? (Units.pairChar u w :: seen) cs'
          else readStringFrom? (Units.unitChar u :: seen) ('\\' :: 'u' :: e :: f :: g :: h :: cs')
      | cs => readStringFrom? (Units.unitChar u :: seen) cs
  | '\\' :: c :: cs =>
    match unescape? c with
    | none => none
    | some x => readStringFrom? (x :: seen) cs
  | c :: cs => if c.toNat < 0x20 ∨ c = '\\' then none else readStringFrom? (c :: seen) cs
  | [] => none

/-- The text of a string behind its first quote, and what follows its last. -/
def readString? (cs : List Char) : Option (String × List Char) :=
  (readStringFrom? [] cs).map fun (s, rest) => (String.ofList s, rest)

/-! ## Numbers -/

/-- The decimal digits at the front, and what follows them. -/
def spanDigits (cs : List Char) : List Nat × List Char :=
  let digits := cs.takeWhile fun c => '0' ≤ c ∧ c ≤ '9'
  (digits.map fun c => c.toNat - '0'.toNat, cs.drop digits.length)

/-- The digits behind a decimal point, if there is one; a point without digits is refused. -/
def readFraction? : List Char → Option (List Nat × List Char)
  | '.' :: cs =>
    let (digits, rest) := spanDigits cs
    if digits.isEmpty then none else some (digits, rest)
  | cs => some ([], cs)

/-- The sign in front of an exponent. -/
def readSign : List Char → Bool × List Char
  | '+' :: cs => (false, cs)
  | '-' :: cs => (true, cs)
  | cs => (false, cs)

/-- The exponent, if there is one; a mark without digits is refused. -/
def readExponent? (cs : List Char) : Option (Int × List Char) :=
  match cs with
  | c :: cs' =>
    if c = 'e' ∨ c = 'E' then
      let (negative, cs'') := readSign cs'
      let (digits, rest) := spanDigits cs''
      let value : Int := Digits.value 10 digits
      if digits.isEmpty then none else some (if negative then -value else value, rest)
    else some (0, cs)
  | [] => some (0, [])

/-- The digits in front of the point: a lone zero or digits that do not begin with one. -/
def readInteger? (cs : List Char) : Option (List Nat × List Char) :=
  let (digits, rest) := spanDigits cs
  match digits with
  | [] => none
  | 0 :: _ :: _ => none
  | ds => some (ds, rest)

/-- A number and what follows it. -/
def readNumber? (cs : List Char) : Option (Number × List Char) :=
  let (negative, cs) := match cs with
    | '-' :: cs => (true, cs)
    | cs => (false, cs)
  match readInteger? cs with
  | none => none
  | some (whole, cs) =>
    match readFraction? cs with
    | none => none
    | some (part, cs) =>
      match readExponent? cs with
      | none => none
      | some (exponent, cs) =>
        some (.ofDecimal negative (Digits.value 10 (whole ++ part)) (exponent - part.length), cs)

/-! ## Values -/

mutual

/-- The value behind blanks and what follows it. Each step down uses one unit of `fuel`. -/
def readValue? : Nat → List Char → Option (Json × List Char)
  | 0, _ => none
  | fuel + 1, cs =>
    match skipGap cs with
    | 'n' :: 'u' :: 'l' :: 'l' :: rest => some (null, rest)
    | 't' :: 'r' :: 'u' :: 'e' :: rest => some (bool true, rest)
    | 'f' :: 'a' :: 'l' :: 's' :: 'e' :: rest => some (bool false, rest)
    | '"' :: rest => (readString? rest).map fun (s, rest) => (string s, rest)
    | '[' :: rest =>
      match skipGap rest with
      | ']' :: rest => some (array [], rest)
      | rest => readItems? fuel [] rest
    | '{' :: rest =>
      match skipGap rest with
      | '}' :: rest => some (object [], rest)
      | rest => readMembers? fuel [] rest
    | cs => (readNumber? cs).map fun (x, rest) => (number x, rest)

/-- The items of an array, behind items `seen` in reverse order, up to its end. -/
def readItems? : Nat → List Json → List Char → Option (Json × List Char)
  | 0, _, _ => none
  | fuel + 1, seen, cs =>
    match readValue? fuel cs with
    | none => none
    | some (v, rest) =>
      match skipGap rest with
      | ',' :: rest => readItems? fuel (v :: seen) rest
      | ']' :: rest => some (array (v :: seen).reverse, rest)
      | _ => none

/-- The members of an object, behind members `seen` in reverse order, up to its end. -/
def readMembers? : Nat → List (String × Json) → List Char → Option (Json × List Char)
  | 0, _, _ => none
  | fuel + 1, seen, cs =>
    match skipGap cs with
    | '"' :: rest =>
      match readString? rest with
      | none => none
      | some (name, rest) =>
        match skipGap rest with
        | ':' :: rest =>
          match readValue? fuel rest with
          | none => none
          | some (v, rest) =>
            match skipGap rest with
            | ',' :: rest => readMembers? fuel ((name, v) :: seen) rest
            | '}' :: rest => some (ofMembers ((name, v) :: seen).reverse, rest)
            | _ => none
        | _ => none
    | _ => none

end

/-- The value that a whole text is. Each step down uses up a character, so the length of the text is
fuel enough. -/
def parse? (s : String) : Option Json :=
  let cs := s.toList
  match readValue? (cs.length + 1) cs with
  | some (v, rest) => if (skipGap rest).isEmpty then some v else none
  | none => none

/-- What is said of a text that is no JSON value. -/
def syntaxProblem : String := "the text is no JSON value"

end DebugWire.Json
