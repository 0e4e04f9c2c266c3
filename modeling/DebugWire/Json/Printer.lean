import DebugWire.Json.Basic

set_option autoImplicit false

/-!
# Printed JSON

The text of a JSON value, either on one line without blanks or with one item a line and two blanks
for each level. In strings the quote, the backslash and the controls below `U+0020` are escaped and
nothing else. A number without finite value is printed as `null`.

## Main definitions

* `DebugWire.Json.quote` — a text as a JSON string.
* `DebugWire.Json.write` — a value in front of further characters.
* `DebugWire.Json.compact`, `DebugWire.Json.pretty` — the two layouts.
* `DebugWire.Json.plain` — the text of a value in a message.
-/

namespace DebugWire.Json

/-! ## Strings -/

/-- A character as it stands inside a JSON string. -/
def escape (c : Char) : List Char :=
  if c = '"' then ['\\', '"']
  else if c = '\\' then ['\\', '\\']
  else if c = '\x08' then ['\\', 'b']
  else if c = '\t' then ['\\', 't']
  else if c = '\n' then ['\\', 'n']
  else if c = '\x0c' then ['\\', 'f']
  else if c = '\r' then ['\\', 'r']
  else if c.toNat < 0x20 then '\\' :: 'u' :: Digits.padLeft 4 '0' (Digits.text 16 c.toNat)
  else [c]

/-- A text as a JSON string in front of further characters. -/
def writeString (s : String) (rest : List Char) : List Char :=
  '"' :: s.toList.foldr (fun c cs => escape c ++ cs) ('"' :: rest)

/-- A text as a JSON string. -/
def quote (s : String) : String := String.ofList (writeString s [])

/-! ## One line -/

/-- The text of a number. -/
def numberChars (x : Number) : List Char :=
  match x with
  | .infinite _ => ['n', 'u', 'l', 'l']
  | .nan => ['n', 'u', 'l', 'l']
  | x => x.chars

mutual

/-- A value without blanks in front of further characters. -/
def write : Json → List Char → List Char
  | null, rest => 'n' :: 'u' :: 'l' :: 'l' :: rest
  | bool true, rest => 't' :: 'r' :: 'u' :: 'e' :: rest
  | bool false, rest => 'f' :: 'a' :: 'l' :: 's' :: 'e' :: rest
  | number x, rest => numberChars x ++ rest
  | string s, rest => writeString s rest
  | array [], rest => '[' :: ']' :: rest
  | array (v :: vs), rest => '[' :: write v (writeItems vs rest)
  | object [], rest => '{' :: '}' :: rest
  | object ((n, v) :: ms), rest => '{' :: writeString n (':' :: write v (writeMembers ms rest))

/-- Further items of an array and its end. -/
def writeItems : List Json → List Char → List Char
  | [], rest => ']' :: rest
  | v :: vs, rest => ',' :: write v (writeItems vs rest)

/-- Further members of an object and its end. -/
def writeMembers : List (String × Json) → List Char → List Char
  | [], rest => '}' :: rest
  | (n, v) :: ms, rest => ',' :: writeString n (':' :: write v (writeMembers ms rest))

end

/-- The text of a value on one line without blanks. -/
def compact (v : Json) : String := String.ofList (write v [])

/-- The text of a value in a message: a string and a number of any size stand for themselves. -/
def plain : Json → String
  | string s => s
  | number x => x.text
  | v => v.compact

/-! ## One item a line -/

/-- A line end and the blanks of a level. -/
def newline (level : Nat) (rest : List Char) : List Char :=
  '\n' :: (List.replicate (2 * level) ' ' ++ rest)

mutual

/-- A value laid out from a level on, in front of further characters. -/
def layOut (level : Nat) : Json → List Char → List Char
  | array (v :: vs), rest =>
    '[' :: newline (level + 1) (layOut (level + 1) v (layOutItems level vs rest))
  | object ((n, v) :: ms), rest =>
    '{' :: newline (level + 1)
      (writeString n (':' :: ' ' :: layOut (level + 1) v (layOutMembers level ms rest)))
  | v, rest => write v rest

/-- Further items of an array and its end. -/
def layOutItems (level : Nat) : List Json → List Char → List Char
  | [], rest => newline level (']' :: rest)
  | v :: vs, rest => ',' :: newline (level + 1) (layOut (level + 1) v (layOutItems level vs rest))

/-- Further members of an object and its end. -/
def layOutMembers (level : Nat) : List (String × Json) → List Char → List Char
  | [], rest => newline level ('}' :: rest)
  | (n, v) :: ms, rest =>
    ',' :: newline (level + 1)
      (writeString n (':' :: ' ' :: layOut (level + 1) v (layOutMembers level ms rest)))

end

/-- The text of a value with one item a line. -/
def pretty (v : Json) : String := String.ofList (layOut 0 v [])

end DebugWire.Json
