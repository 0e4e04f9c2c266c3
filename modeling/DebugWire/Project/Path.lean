set_option autoImplicit false

/-!
# Paths

Paths are texts whose parts are separated by slashes. Joining two of them leaves out empty parts and
dots, takes back a part for each pair of dots, and keeps a slash at the end.

## Main definitions

* `DebugWire.Path.join` — a path inside of a directory.
* `DebugWire.Path.resolve` — a path as it is meant from a directory.
* `DebugWire.Path.key` — the parts that a path names a place by.
-/

namespace DebugWire.Path

/-- The parts of a path between its slashes, behind the characters `part` in reverse order. -/
def partsFrom (part : List Char) : List Char → List (List Char)
  | [] => [part.reverse]
  | c :: cs => if c = '/' then part.reverse :: partsFrom [] cs else partsFrom (c :: part) cs

/-- The parts of a path between its slashes. -/
def parts (path : List Char) : List (List Char) := partsFrom [] path

/-- Whether a path starts at the root. -/
def isAbsolute (path : String) : Bool := path.toList.head? = some '/'

/-- The parts `kept`, in reverse order, followed by one more. A pair of dots takes back a part; at
the root it does nothing, and in front of a relative path it stays. -/
def addPart (absolute : Bool) (kept : List (List Char)) (part : List Char) : List (List Char) :=
  if part = [] ∨ part = ['.'] then kept
  else if part = ['.', '.'] then
    match kept with
    | [] => if absolute then [] else [part]
    | k :: ks => if k = ['.', '.'] then part :: k :: ks else ks
  else part :: kept

/-- The parts of a path without empty parts, dots, and parts that are taken back. -/
def normalParts (path : List Char) : List (List Char) :=
  ((parts path).foldl (addPart (path.head? = some '/')) []).reverse

/-- A path without empty parts, dots, and parts that are taken back. -/
def normalize (path : List Char) : List Char :=
  let absolute : Bool := path.head? = some '/'
  let trailing : Bool := path.getLast? = some '/'
  let body := List.intercalate ['/'] (normalParts path)
  if path = [] then ['.']
  else if body = [] then
    if absolute then ['/'] else if trailing then ['.', '/'] else ['.']
  else (if absolute then ['/'] else []) ++ body ++ (if trailing then ['/'] else [])

/-- A path inside of a directory. -/
def join (dir path : String) : String :=
  let whole := List.intercalate ['/'] ([dir.toList, path.toList].filter (· ≠ []))
  String.ofList (normalize whole)

/-- A path as it is meant from a directory: itself if it starts at the root. -/
def resolve (dir path : String) : String := if isAbsolute path then path else join dir path

/-- The path of the directory of a path: all in front of the last part, a dot if there is nothing.
-/
def directory (path : String) : String :=
  let body := (path.toList.reverse.dropWhile (· = '/')).dropWhile (· ≠ '/')
  let parent := (body.dropWhile (· = '/')).reverse
  if !parent.isEmpty then String.ofList parent
  else if isAbsolute path then "/" else "."

/-- The parts that an absolute path names a place by. -/
def key (path : String) : List (List Char) := normalParts path.toList

end DebugWire.Path
