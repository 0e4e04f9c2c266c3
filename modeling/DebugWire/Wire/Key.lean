set_option autoImplicit false

/-!
# Keys

The keys that can be sent to a device: the letters, digits and punctuation of ASCII, the space, and
four controls. The controls and the space also have names.

## Main definitions

* `DebugWire.Key.isSupported` — whether a text is one supported key.
* `DebugWire.Key.named` — the keys with names.
* `DebugWire.Key.resolve?` — the key that a name or the key itself stands for.
-/

namespace DebugWire.Key

/-- The keys with names, in the order in which they are listed. -/
def named : List (String × Char) :=
  [("escape", '\x1b'), ("space", ' '), ("return", '\n'), ("tab", '\t'), ("backspace", '\x08')]

/-- Whether a character is a supported key: printable ASCII or one of the named controls. -/
def isKey (c : Char) : Bool :=
  (0x20 ≤ c.toNat && c.toNat < 0x7f) || c == '\x1b' || c == '\n' || c == '\t' || c == '\x08'

/-- Whether a text is one supported key. -/
def isSupported (s : String) : Bool :=
  match s.toList with
  | [c] => isKey c
  | _ => false

/-- The text of one key. -/
def ofChar (c : Char) : String := String.ofList [c]

/-- The key that a name or the key itself stands for. -/
def resolve? (s : String) : Option String :=
  match named.lookup s with
  | some c => some (ofChar c)
  | none => if isSupported s then some s else none

end DebugWire.Key
