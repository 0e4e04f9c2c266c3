import DebugWire.Options.Value
import DebugWire.Text.Case

set_option autoImplicit false

/-!
# Names of options

An option may go by several names, and a name with dashes has a form with capitals as well. The
table of names grows while a command line is read: a name with dashes that is not known brings its
form with capitals, and each of the two then stands for the other.

## Main definitions

* `DebugWire.OptionSpec` — an option that is known.
* `DebugWire.capitalForm` — a name with capitals in place of dashes.
* `DebugWire.OptionNames` — which names stand for the same option.
* `DebugWire.OptionNames.note` — the table after a name was used.
* `DebugWire.OptionNames.isKnown` — whether a name is that of a known option.
-/

namespace DebugWire

/-- An option that is known. -/
structure OptionSpec where
  /-- Its name. -/
  name : String
  /-- What it takes. -/
  kind : OptionKind
  /-- Its other names. -/
  aliases : List String := []
  /-- What it is set to if it is not given. -/
  default : Option Json := none

/-! ## Forms with capitals -/

/-- The characters behind dashes and low lines in upper case, and the dashes and low lines left out.
-/
def joinCapitals (capital : Bool) : List Char → List Char
  | [] => []
  | c :: cs =>
    if c = '-' ∨ c = '_' then joinCapitals true cs
    else (if capital then Text.capitals c else [c]) ++ joinCapitals false cs

/-- A part of a name with capitals in place of dashes and low lines. A part that mixes letter cases
keeps them, any other is in lower case otherwise. A dash or low line at the very front makes no
capital. -/
def capitalPart (part : String) : String :=
  let cs := part.toList
  let isMixed := cs ≠ cs.map Text.smalls ∧ cs ≠ cs.flatMap Text.capitals
  match if isMixed then cs else cs.map Text.smalls with
  | '_' :: cs => String.ofList (joinCapitals false cs)
  | cs => String.ofList (joinCapitals false (cs.dropWhile (· = '-')))

/-- The parts of a name between its points. -/
def nameParts (name : String) : List String := (Text.splitAt '.' name.toList).map String.ofList

/-- A name with capitals in place of dashes. -/
def capitalForm (name : String) : String := ".".intercalate ((nameParts name).map capitalPart)

namespace OptionSpec

/-- The forms with capitals of the names of an option, as far as they are not among the names. -/
def capitalForms (spec : OptionSpec) : List String :=
  (((spec.aliases ++ [spec.name]).filter (·.contains '-')).map capitalForm).filter fun n =>
    !(spec.name :: spec.aliases).contains n

/-- All names of an option, its own first. -/
def names (spec : OptionSpec) : List String := spec.name :: spec.aliases ++ spec.capitalForms

end OptionSpec

/-! ## The table -/

/-- Which names stand for the same option. -/
structure OptionNames where
  /-- The names that a name goes with. -/
  others : List (String × List String)
  /-- The names that were made from other names. -/
  made : List String

namespace OptionNames

/-- The table of known options. -/
def ofSpecs (specs : List OptionSpec) : OptionNames where
  others := specs.flatMap fun spec => spec.names.map fun n => (n, spec.names.filter (· ≠ n))
  made := specs.flatMap OptionSpec.capitalForms

/-- The names that a name goes with. -/
def othersOf (names : OptionNames) (name : String) : List String :=
  (names.others.lookup name).getD []

/-- The table in which a name that goes with no other goes with a new one. -/
def link (names : OptionNames) (name new : String) : OptionNames :=
  if (names.othersOf name).isEmpty then ⟨(name, [new]) :: names.others, new :: names.made⟩
  else names

/-- The table after a name was used. -/
def note (names : OptionNames) (name : String) : OptionNames :=
  if name.contains '-' then
    (names.link name (capitalForm name)).link (capitalForm name) name
  else names

/-- Whether a name is that of a known option: it is in the table and was not made, or goes with a
name that was not. -/
def isKnown (names : OptionNames) (name : String) : Bool :=
  match names.others.lookup name with
  | some others => (name :: others).any fun n => !names.made.contains n
  | none => false

/-- The known option that a name stands for. -/
def spec? (names : OptionNames) (specs : List OptionSpec) (name : String) : Option OptionSpec :=
  specs.find? fun spec => spec.name = name || (names.othersOf name).contains spec.name

end OptionNames

end DebugWire
