import DebugWire.Number.Text

set_option autoImplicit false

/-!
# JSON values

A JSON value, with the members of an object in the order in which they are listed: names that are
array indices first, in ascending order, then the others in the order of their first appearance. A
name that appears again takes the new value and keeps its place.

## Main definitions

* `DebugWire.Json` — the type of values.
* `DebugWire.Json.put` — a member list with one member set.
* `DebugWire.Json.ofMembers` — the object of members given in any order.
* `DebugWire.Json.get?` — a member of an object.
-/

namespace DebugWire

/-- A JSON value. -/
inductive Json where
  | null
  | bool (b : Bool)
  | number (x : Number)
  | string (s : String)
  | array (items : List Json)
  | object (members : List (String × Json))

namespace Json

instance : Inhabited Json := ⟨null⟩

/-! ## Members -/

/-- The member list with `name` set to `value`, in its old place if it has one. -/
def put (name : String) (value : Json) : List (String × Json) → List (String × Json)
  | [] => [(name, value)]
  | (n, v) :: rest => if n = name then (name, value) :: rest else (n, v) :: put name value rest

/-- The array index that a name is: decimal digits without a zero in front, below `4294967295`. -/
def arrayIndex? (name : String) : Option Nat :=
  match Digits.readDecimal? name.toList with
  | some n => if n < 4294967295 ∧ Digits.text 10 n = name.toList then some n else none
  | none => none

/-- The members in the order in which an object lists them. -/
def arrange (members : List (String × Json)) : List (String × Json) :=
  let indexed := members.filterMap fun m => (arrayIndex? m.1).map (·, m)
  let named := members.filter fun m => (arrayIndex? m.1).isNone
  (indexed.mergeSort fun a b => a.1 ≤ b.1).map (·.2) ++ named

/-- The object of members as they are written down one after the other. -/
def ofMembers (members : List (String × Json)) : Json :=
  object (arrange (members.foldl (fun ms m => put m.1 m.2 ms) []))

/-! ## Looking into a value -/

/-- The value of a member of an object; `none` for other values. -/
def get? (name : String) : Json → Option Json
  | object members => members.lookup name
  | _ => none

/-- The members of an object. -/
def members? : Json → Option (List (String × Json))
  | object members => some members
  | _ => none

/-- The items of an array. -/
def items? : Json → Option (List Json)
  | array items => some items
  | _ => none

/-- The text of a string. -/
def string? : Json → Option String
  | string s => some s
  | _ => none

/-- The value of a number. -/
def number? : Json → Option Number
  | number x => some x
  | _ => none

/-- The value of a truth value. -/
def bool? : Json → Option Bool
  | bool b => some b
  | _ => none

/-- The number of a value that is a whole number. -/
def whole? : Json → Option Number
  | number x => if x.isWhole then some x else none
  | _ => none

end Json

end DebugWire
