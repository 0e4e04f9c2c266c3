import DebugWire.Number.Text
import DebugWire.Text.Blank

set_option autoImplicit false

/-!
# Listings

A listing is what the assembler tells of a program for debugging: its instructions, strings, data
and labels, each with the source line that it stands in.

## Main definitions

* `DebugWire.Listing` — a listing.
* `DebugWire.Listing.opAt?`, `DebugWire.Listing.labelAt?` — what is at an address.
* `DebugWire.Listing.labelAddress?` — the address of a label.
* `DebugWire.Listing.describe?` — an address in words.
-/

namespace DebugWire

/-- An instruction of a program. -/
structure ListedOp where
  /-- Its address. -/
  address : Number
  /-- Its line as it was written. -/
  sourceLine : String
  /-- The number of its line. -/
  lineNumber : Number
  /-- Its line as the assembler has read it. -/
  processedLine : String
  deriving DecidableEq

/-- A string or another piece of data of a program. -/
structure ListedData where
  /-- Its address. -/
  address : Number
  /-- Its name. -/
  key : String
  /-- Its line as it was written. -/
  sourceLine : String
  /-- The number of its line. -/
  lineNumber : Number
  /-- The addresses of the instructions that use it. -/
  usage : List Number
  deriving DecidableEq

/-- A label of a program. -/
structure ListedLabel where
  /-- Its address. -/
  address : Number
  /-- Its name. -/
  name : String
  /-- Its line as it was written. -/
  sourceLine : String
  /-- The number of its line. -/
  lineNumber : Number
  /-- The addresses of the instructions that use it. -/
  usage : List Number
  deriving DecidableEq

/-- What the assembler tells of a program. -/
structure Listing where
  /-- The instructions. -/
  ops : List ListedOp
  /-- The strings. -/
  strings : List ListedData
  /-- The other data. -/
  data : List ListedData
  /-- The labels. -/
  labels : List ListedLabel
  deriving DecidableEq

namespace Listing

/-- The last instruction at an address. -/
def opAt? (l : Listing) (address : Number) : Option ListedOp :=
  l.ops.reverse.find? fun op => op.address = address

/-- The last label at an address. -/
def labelAt? (l : Listing) (address : Number) : Option ListedLabel :=
  l.labels.reverse.find? fun label => label.address = address

/-- The address of the last label of a name. -/
def labelAddress? (l : Listing) (name : String) : Option Number :=
  (l.labels.reverse.find? fun label => label.name = name).map (·.address)

/-- A text without blanks at its ends. -/
def trimmed (s : String) : String := String.ofList (Text.trim s.toList)

/-- The label at an address, if there is one, and the source line of the instruction there. -/
def describe? (l : Listing) (address : Number) : Option String :=
  (l.opAt? address).map fun op =>
    let label := match l.labelAt? address with
      | some label => label.name ++ " "
      | none => ""
    label ++ "(line " ++ op.lineNumber.text ++ "): " ++ trimmed op.sourceLine

end Listing

end DebugWire
