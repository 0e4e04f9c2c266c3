import DebugWire.Json.Parser
import DebugWire.Listing.Basic

set_option autoImplicit false

/-!
# Reading listings

A listing is stored as a JSON object with a list for each of its sections. A section that is missing
or `null` is empty, and so are the addresses that use an entry. Sections are checked in the order
`ops`, `strings`, `data`, `labels`, and the members of an entry in theirs; the first that is wrong
is told. Other members are left out.

## Main definitions

* `DebugWire.Listing.Problem` — what is wrong with a stored listing, and where.
* `DebugWire.Listing.ofJson` — the listing that a JSON value holds.
* `DebugWire.Listing.toJson` — the JSON value of a listing.
-/

namespace DebugWire.Listing

/-! ## Problems -/

/-- A place in a stored listing. -/
inductive Place where
  /-- The whole of it. -/
  | root
  /-- An entry of a section. -/
  | entry (part : String) (index : Nat)
  deriving DecidableEq

/-- How a place is called. -/
def Place.text : Place → String
  | root => "debug model"
  | entry s i => s ++ "[" ++ String.ofList (Digits.text 10 i) ++ "]"

/-- What is wrong with a stored listing. -/
inductive Problem where
  /-- A place that holds no object. -/
  | notObject (place : Place)
  /-- A section that is no list. -/
  | notList (part : String)
  /-- A member that is no natural number. -/
  | notNatural (place : Place) (field : String)
  /-- A member that is no string. -/
  | notString (place : Place) (field : String)
  /-- The addresses that use an entry, when they are no list of whole numbers. -/
  | notAddresses (place : Place)
  deriving DecidableEq

/-- The wording of a problem. -/
def Problem.message : Problem → String
  | notObject place => place.text ++ " must be an object"
  | notList part => "\"" ++ part ++ "\" must be an array"
  | notNatural place field => place.text ++ "." ++ field ++ " must be a non-negative integer"
  | notString place field => place.text ++ "." ++ field ++ " must be a string"
  | notAddresses place => place.text ++ ".usage must be a list of addresses"

/-! ## Members -/

/-- A natural number. -/
def natural (j : Json) (place : Place) (field : String) : Except Problem Number :=
  match (j.get? field).bind Json.whole? with
  | some x => if x.isNegative then .error (.notNatural place field) else .ok x
  | none => .error (.notNatural place field)

/-- A string. -/
def text (j : Json) (place : Place) (field : String) : Except Problem String :=
  match (j.get? field).bind Json.string? with
  | some s => .ok s
  | none => .error (.notString place field)

/-- The addresses that use an entry. -/
def usage (j : Json) (place : Place) : Except Problem (List Number) :=
  match j.get? "usage" with
  | none => .ok []
  | some .null => .ok []
  | some (.array items) =>
    match items.mapM Json.whole? with
    | some xs => .ok xs
    | none => .error (.notAddresses place)
  | some _ => .error (.notAddresses place)

/-! ## Entries -/

/-- An instruction. -/
def readOp (j : Json) (place : Place) : Except Problem ListedOp := do
  let address ← natural j place "byte"
  let sourceLine ← text j place "original_line"
  let lineNumber ← natural j place "line_num"
  let processedLine ← text j place "processed_line"
  .ok ⟨address, sourceLine, lineNumber, processedLine⟩

/-- A string or another piece of data. -/
def readData (j : Json) (place : Place) : Except Problem ListedData := do
  let address ← natural j place "addr"
  let key ← text j place "key"
  let sourceLine ← text j place "original_line"
  let lineNumber ← natural j place "line_num"
  let usage ← usage j place
  .ok ⟨address, key, sourceLine, lineNumber, usage⟩

/-- A label. -/
def readLabel (j : Json) (place : Place) : Except Problem ListedLabel := do
  let address ← natural j place "byte"
  let name ← text j place "name"
  let sourceLine ← text j place "original_line"
  let lineNumber ← natural j place "line_num"
  let usage ← usage j place
  .ok ⟨address, name, sourceLine, lineNumber, usage⟩

/-! ## Sections -/

/-- The entries of a section from a place on. -/
def readEntries {α : Type} (part : String) (read : Json → Place → Except Problem α) (index : Nat) :
    List Json → Except Problem (List α)
  | [] => .ok []
  | j :: js =>
    match j with
    | .object _ => do
      let entry ← read j (.entry part index)
      let entries ← readEntries part read (index + 1) js
      .ok (entry :: entries)
    | _ => .error (.notObject (.entry part index))

/-- A section. -/
def readSection {α : Type} (j : Json) (part : String) (read : Json → Place → Except Problem α) :
    Except Problem (List α) :=
  match j.get? part with
  | none => .ok []
  | some .null => .ok []
  | some (.array items) => readEntries part read 0 items
  | some _ => .error (.notList part)

/-- The listing that a JSON value holds. -/
def ofJson (j : Json) : Except Problem Listing :=
  match j with
  | .object _ => do
    let ops ← readSection j "ops" readOp
    let strings ← readSection j "strings" readData
    let data ← readSection j "data" readData
    let labels ← readSection j "labels" readLabel
    .ok ⟨ops, strings, data, labels⟩
  | _ => .error (.notObject .root)

/-! ## Listings as JSON -/

/-- An instruction as a JSON object. -/
def opJson (op : ListedOp) : Json :=
  .object [("byte", .number op.address), ("original_line", .string op.sourceLine),
    ("line_num", .number op.lineNumber), ("processed_line", .string op.processedLine)]

/-- A string or another piece of data as a JSON object. -/
def dataJson (d : ListedData) : Json :=
  .object [("addr", .number d.address), ("key", .string d.key),
    ("original_line", .string d.sourceLine),
    ("line_num", .number d.lineNumber), ("usage", .array (d.usage.map .number))]

/-- A label as a JSON object. -/
def labelJson (l : ListedLabel) : Json :=
  .object [("byte", .number l.address), ("name", .string l.name),
    ("original_line", .string l.sourceLine),
    ("line_num", .number l.lineNumber), ("usage", .array (l.usage.map .number))]

/-- A listing as a JSON object. -/
def toJson (l : Listing) : Json :=
  .object [("ops", .array (l.ops.map opJson)), ("strings", .array (l.strings.map dataJson)),
    ("data", .array (l.data.map dataJson)), ("labels", .array (l.labels.map labelJson))]

end DebugWire.Listing
