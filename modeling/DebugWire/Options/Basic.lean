import DebugWire.Options.Names
import DebugWire.Options.Word

set_option autoImplicit false

/-!
# Options of a command line

A command line is a list of words. Options stand among them in any order: `--name value`,
`--name=value`, `--no-name`, `-n value`, and several letters behind one dash. A flag takes no value
but `true` and `false`; a list takes all words up to the next option; an option that is not known
takes a value as a text would. Words that belong to no option keep their order, and behind `--`
every word is left as it is.

Every name of an option keeps a value, and what is given for one name is set for all that go with
it. A point in a name leads to a member of the value. Values are listed as the members of a JSON
object are.

## Main definitions

* `DebugWire.Options` — the outcome of reading a command line.
* `DebugWire.Options.read` — reads a command line.
* `DebugWire.Options.get` — the value of an option.
* `DebugWire.Options.unknown` — the names that are not known.
* `DebugWire.Options.strangers` — what is said of arguments that are not known.
-/

namespace DebugWire

/-- The outcome of reading a command line. -/
structure Options where
  /-- The options that are known. -/
  specs : List OptionSpec
  /-- The names of options, as far as they were used. -/
  names : OptionNames
  /-- The options that were given, by their names. -/
  values : List (String × Json) := []
  /-- The words that belong to no option. -/
  words : List String := []
  /-- The words behind `--`. -/
  rest : List String := []

namespace Options

/-- Nothing is read so far. -/
def start (specs : List OptionSpec) : Options where
  specs := specs
  names := .ofSpecs specs

/-- What an option with a name takes, if it is known. -/
def kind? (o : Options) (name : String) : Option OptionKind :=
  (o.names.spec? o.specs name).map (·.kind)

/-! ## Setting values -/

/-- The name by which a value is kept; one name is reserved. -/
def keptName (name : String) : String := if name = "__proto__" then "___proto___" else name

/-- The members with one more value at a path of names: `last` makes the new value at its end of the
old one. On the way a value that is no object becomes a list with an object at its end. -/
def place (last : Json → Json) : List String → List (String × Json) → List (String × Json)
  | [], ms => ms
  | [name], ms => Json.arrange (Json.put name (last ((ms.lookup name).getD .null)) ms)
  | name :: path, ms =>
    let below := match (ms.lookup name).getD .null with
      | .null => .object (place last path [])
      | .object ms => .object (place last path ms)
      | .array items => .array (items ++ [.object (place last path [])])
      | v => .array [v, .object (place last path [])]
    Json.arrange (Json.put name below ms)

/-- Sets the value at a path. The name `_` stands for the words that belong to no option. -/
def setAt (o : Options) (value : Json) (path : List String) : Options :=
  match path with
  | "_" :: path =>
    { o with words := o.words ++ [if path.isEmpty then value.word else (Json.object []).word] }
  | path =>
    let kind : Option OptionKind :=
      if o.kind? (".".intercalate path) = some .list then some .list
      else (path.getLast?.bind o.kind?).filter (· = .flag)
    { o with values := place (Json.again kind · value) (path.map keptName) o.values }

/-- The paths at which an option is set: that of its name and those of all names that go with it. If
the name has a point, the names that go with the part in front of it count as well. -/
def paths (names : OptionNames) (name : String) : List (List String) :=
  let others := names.othersOf name
  let further := match nameParts name with
    | first :: d :: below =>
      ((names.othersOf first).map fun n => nameParts n ++ d :: below).filter fun path =>
        !others.contains (".".intercalate path)
    | _ => []
  (name :: others).map nameParts ++ further

/-- The outcome with an option set to a value that was given. The name `_` takes a text as it is. -/
def set (o : Options) (name : String) (given : Json) : Options :=
  let o := { o with names := o.names.note name }
  let kind := if name = "_" then some .text else o.kind? name
  (paths o.names name).foldl (setAt · (OptionKind.take kind given)) o

/-- The outcome with one more word. -/
def addWord (o : Options) (word : String) : Options := { o with words := o.words ++ [word] }

/-- What is given by the name of an option alone. -/
def bare (o : Options) (name : String) : Json :=
  let default := (o.specs.find? fun spec => spec.names.contains name).bind (·.default)
  match o.kind? name with
  | none | some .flag => .bool true
  | some .number => default.getD .null
  | some .text => default.getD (.string "")
  | some .list => default.getD (.array [])

/-- What is given by switching an option off. -/
def off (o : Options) (name : String) : Json :=
  if o.kind? name = some .list then .array [.bool false] else .bool false

/-! ## Values behind an option -/

/-- Gives an option the next words: a list takes all up to the next option; a flag takes `true` or
`false` and any other option one word, unless that is taken for an option itself. -/
def addNext (o : Options) (refuses : String → Bool) (name : String) (args : List String) :
    Options × List String :=
  if o.kind? name = some .list then
    let taken := args.takeWhile fun a => !OptionWord.isDashed a
    (o.set name (if taken.isEmpty then o.bare name else .array (taken.map .string)),
      args.dropWhile fun a => !OptionWord.isDashed a)
  else
    match args with
    | [] => (o.set name (o.bare name), [])
    | next :: rest =>
      if (o.kind? name ≠ some .flag && !refuses next) || next = "true" || next = "false" then
        (o.set name (.string next), rest)
      else (o.set name (o.bare name), next :: rest)

/-- Gives an option a list that starts with a value. -/
def addList (o : Options) (name value : String) (args : List String) : Options × List String :=
  if value.isEmpty ∧ args.isEmpty then (o.set name (o.bare name), [])
  else
    let taken := args.takeWhile fun a => !OptionWord.isDashed a
    (o.set name (.array ((OptionWord.unquote value :: taken).map .string)),
      args.dropWhile fun a => !OptionWord.isDashed a)

/-! ## Groups of letters -/

/-- What a group of letters behind one dash comes to. -/
inductive Group where
  /-- All letters are set. -/
  | closed
  /-- The last option takes a list that starts with a value. -/
  | list (name value : String)
  /-- The last option may take the next word. -/
  | opened (name : String)

/-- Reads a group of letters behind one dash. A letter takes the rest of the group as its value if
that is a number or goes on behind an equals sign or another character that is in no name; a
character beyond `U+FFFF` counts as two, so that it goes on by itself. -/
def addGroup (o : Options) : List Char → Options × Group
  | [] => (o, .closed)
  | [c] => (o, if c = '-' then .closed else .opened (String.ofList [c]))
  | c :: d :: cs =>
    let name := String.ofList [c]
    let next := d :: cs
    if d = '=' ∧ cs ≠ [] then
      if o.kind? name = some .list then (o, .list name (String.ofList cs))
      else (o.set name (.string (String.ofList cs)), .closed)
    else if next = ['-'] then (o.set name (.string "-"), .closed)
    else if (c.isAlpha && OptionWord.isAttachedNumber next)
        || (!OptionWord.isNameChar d && (cs ≠ [] || 0xffff < d.toNat)) then
      (o.set name (.string (String.ofList next)), .closed)
    else addGroup (o.set name (o.bare name)) next

/-! ## Reading -/

/-- Reads one word and those that it takes; nothing is left behind the end of the options. -/
def readOne (o : Options) (word : String) (args : List String) : Options × List String :=
  match OptionWord.of word with
  | .plain => (o.addWord word, args)
  | .stop => ({ o with rest := args }, [])
  | .equal name value =>
    if o.kind? name = some .list then o.addList name value args
    else (o.set name (.string (OptionWord.unquote value)), args)
  | .off name => (o.set name (o.off name), args)
  | .long name => o.addNext OptionWord.isDashed name args
  | .memberEqual name value => (o.set name (.string value), args)
  | .member name => o.addNext OptionWord.startsWithDash name args
  | .letters cs =>
    match o.addGroup cs with
    | (o, .closed) => (o, args)
    | (o, .list name value) => o.addList name value args
    | (o, .opened name) => o.addNext OptionWord.isOption name args

/-- What is left behind a prefix is no longer than the whole. -/
theorem length_dropWhile_le {α : Type} (p : α → Bool) (xs : List α) :
    (xs.dropWhile p).length ≤ xs.length :=
  (List.dropWhile_sublist p).length_le

/-- Reading the value of an option takes words away or leaves them, and adds none. -/
theorem length_addNext_le (o : Options) (refuses : String → Bool) (name : String)
    (args : List String) :
    (o.addNext refuses name args).2.length ≤ args.length := by
  unfold addNext
  split
  · exact length_dropWhile_le _ _
  · split
    · exact Nat.le_refl _
    · split
      · exact Nat.le_succ _
      · exact Nat.le_refl _

/-- Reading the values of an option that takes a list takes words away and adds none. -/
theorem length_addList_le (o : Options) (name value : String) (args : List String) :
    (o.addList name value args).2.length ≤ args.length := by
  unfold addList
  split
  · exact Nat.zero_le _
  · exact length_dropWhile_le _ _

/-- Reading a word leaves no more words than there were behind it.

**Proof sketch.** Each way to read a word hands on the words behind it, or what `addNext` and
`addList` leave of them. -/
theorem length_readOne_le (o : Options) (word : String) (args : List String) :
    (o.readOne word args).2.length ≤ args.length := by
  unfold readOne
  split
  · exact Nat.le_refl _
  · exact Nat.zero_le _
  · split
    · exact length_addList_le _ _ _ _
    · exact Nat.le_refl _
  · exact Nat.le_refl _
  · exact length_addNext_le _ _ _ _
  · exact Nat.le_refl _
  · exact length_addNext_le _ _ _ _
  · split
    · exact Nat.le_refl _
    · exact length_addList_le _ _ _ _
    · exact length_addNext_le _ _ _ _

/-- Reads words one after the other. -/
def readFrom (o : Options) : List String → Options
  | [] => o
  | word :: args =>
    let r := o.readOne word args
    readFrom r.1 r.2
termination_by args => args.length
decreasing_by
  exact Nat.lt_succ_of_le (length_readOne_le _ _ _)

/-- The outcome with the defaults of options that are not given. -/
def complete (o : Options) : Options :=
  let missing := o.specs.filterMap fun spec =>
    if (o.values.lookup spec.name).isSome then none else spec.default.map fun v => (spec.name, v)
  { o with values := o.values ++ missing }

/-- Reads a command line. -/
def read (specs : List OptionSpec) (args : List String) : Options :=
  complete (readFrom (.start specs) args)

/-! ## Asking -/

/-- The value of an option; `null` if it has none. -/
def get (o : Options) (name : String) : Json := (o.values.lookup name).getD .null

/-- Whether a flag is set. -/
def flag (o : Options) (name : String) : Bool := (o.get name).isTrue

/-- The text that an option is set to, if it is set to a text. -/
def text? (o : Options) (name : String) : Option String := (o.get name).string?

/-- The number that an option is set to, if it is set to a number. -/
def number? (o : Options) (name : String) : Option Number := (o.get name).number?

/-- The names that were given and are not known. Names that are not those of options do not count.
-/
def unknown (o : Options) : List String :=
  (o.values.map (·.1)).filter fun n => n ≠ "$0" && n ≠ "--" && !o.names.isKnown n

/-- What is said of arguments that are not known, if there are any; blank ones are quoted. -/
def strangers (unknown : List String) : Option String :=
  let shown := unknown.map fun u => if (Text.trim u.toList).isEmpty then "\"" ++ u ++ "\"" else u
  match shown with
  | [] => none
  | [u] => some ("Unknown argument: " ++ u)
  | us => some ("Unknown arguments: " ++ ", ".intercalate us)

end Options

end DebugWire
