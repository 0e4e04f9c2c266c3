import DebugWire.Project.Path
import DebugWire.Text.Utf8

set_option autoImplicit false

/-!
# Files

The files that the commands read and write, as a value: each has a place and bytes. A directory is
there as soon as a file is in it. Relative paths are meant from the current directory.

## Main definitions

* `DebugWire.Files` — the files.
* `DebugWire.Files.read` — the bytes of a file.
* `DebugWire.Files.write` — the files after one is written.
* `DebugWire.Files.makeDirectory` — the files after a directory is made.
* `DebugWire.Files.list` — the names in a directory, in order.
* `DebugWire.Files.changes` — the files that differ from others.
-/

namespace DebugWire

/-- The parts of the name of a place. -/
abbrev Place := List (List Char)

/-- Files with their places. -/
structure Files where
  /-- The place and the bytes of each file, in the order of their first writing. -/
  entries : List (Place × Bytes)
  /-- The directories that are there without a file in them. -/
  directories : List Place
  /-- The current directory. -/
  current : String

namespace Files

/-! ## Problems -/

/-- Why a file or directory cannot be used. -/
inductive Obstacle where
  /-- It is not there. -/
  | missing
  /-- It is a directory. -/
  | directory
  /-- A part of its path is a file. -/
  | notDirectory
  /-- A file is in its place. -/
  | taken
  deriving DecidableEq

/-- The wording of an obstacle. -/
def Obstacle.message : Obstacle → String
  | missing => "ENOENT: no such file or directory"
  | directory => "EISDIR: illegal operation on a directory"
  | notDirectory => "ENOTDIR: not a directory"
  | taken => "EEXIST: file already exists"

/-- A use of a file or directory that is not possible. -/
structure Problem where
  /-- Why it is not possible. -/
  obstacle : Obstacle
  /-- What was tried. -/
  attempt : String
  deriving DecidableEq

/-- The wording of a problem. -/
def Problem.message (p : Problem) : String := p.obstacle.message ++ ", " ++ p.attempt

/-- A problem with an action on a path. -/
def Problem.on (obstacle : Obstacle) (action path : String) : Problem :=
  ⟨obstacle, action ++ " '" ++ path ++ "'"⟩

/-! ## Places -/

/-- Files and directories given by absolute paths. -/
def ofList (files : List (String × Bytes)) (directories : List String) (current : String) : Files :=
  ⟨files.map fun f => (Path.key f.1, f.2), directories.map Path.key, current⟩

/-- The place that a path names. -/
def place (f : Files) (path : String) : Place := Path.key (Path.resolve f.current path)

/-- The bytes of the file at a place. -/
def at? (f : Files) (place : Place) : Option Bytes := f.entries.lookup place

/-- Whether a place is a directory. -/
def isDirectory (f : Files) (place : Place) : Bool :=
  f.directories.any (place.isPrefixOf ·)
    || f.entries.any fun e => place.isPrefixOf e.1 && place.length < e.1.length

/-- Whether a place is inside of a file. -/
def isInFile (f : Files) (place : Place) : Bool :=
  f.entries.any fun e => e.1.isPrefixOf place && e.1.length < place.length

/-- Whether there is a file or a directory at a path. -/
def isPresent (f : Files) (path : String) : Bool :=
  (f.at? (f.place path)).isSome || f.isDirectory (f.place path)

/-! ## Reading -/

/-- Whether a path can only mean a directory: it has a slash at its end. -/
def meansDirectory (path : String) : Bool := path.toList.getLast? = some '/'

/-- The bytes of a file. -/
def read (f : Files) (path : String) : Except Problem Bytes :=
  match f.at? (f.place path) with
  | some bytes => if meansDirectory path then .error (.on .notDirectory "open" path) else .ok bytes
  | none =>
    if f.isDirectory (f.place path) then .error ⟨.directory, "read"⟩
    else if f.isInFile (f.place path) then .error (.on .notDirectory "open" path)
    else .error (.on .missing "open" path)

/-- The names in a directory, each once, in the order of their characters. -/
def list (f : Files) (path : String) : Except Problem (List String) :=
  let place := f.place path
  if path.isEmpty then .error (.on .missing "scandir" path)
  else if f.isDirectory place then
    let names := (f.entries.map (·.1) ++ f.directories).filterMap fun p =>
      if place.isPrefixOf p then p[place.length]? else none
    .ok ((names.map String.ofList).mergeSort (fun a b => decide (a ≤ b))).eraseDups
  else if (f.at? place).isSome || f.isInFile place then .error (.on .notDirectory "scandir" path)
  else .error (.on .missing "scandir" path)

/-! ## Writing -/

/-- The entries with one file written. -/
def put (place : Place) (bytes : Bytes) : List (Place × Bytes) → List (Place × Bytes)
  | [] => [(place, bytes)]
  | (p, b) :: rest => if p = place then (place, bytes) :: rest else (p, b) :: put place bytes rest

/-- The files after one is written. Its directory has to be there. -/
def write (f : Files) (path : String) (bytes : Bytes) : Except Problem Files :=
  let place := f.place path
  if f.isDirectory place then .error (.on .directory "open" path)
  else if f.isInFile place then .error (.on .notDirectory "open" path)
  else if !f.isDirectory place.dropLast then .error (.on .missing "open" path)
  else if meansDirectory path then .error (.on .directory "open" path)
  else .ok { f with entries := put place bytes f.entries }

/-- The files after a directory is made, with all directories around it. -/
def makeDirectory (f : Files) (path : String) : Except Problem Files :=
  let place := f.place path
  if (f.at? place).isSome then .error (.on .taken "mkdir" path)
  else if f.isInFile place then .error (.on .notDirectory "mkdir" path)
  else .ok { f with directories := f.directories ++ [place] }

/-! ## Comparison -/

/-- The files that are not the same in `before`, by their paths from the current directory. -/
def changes (before after : Files) : List (String × Bytes) :=
  let base := Path.key after.current
  let places := ((after.entries.map (·.1)).filter fun p => before.at? p ≠ after.at? p).eraseDups
  places.filterMap fun p =>
    let parts := if base.isPrefixOf p then p.drop base.length else [] :: p
    (after.at? p).map fun bytes => (String.ofList (List.intercalate ['/'] parts), bytes)

/-- Reading a file gives the bytes that were written to it last.

**Proof sketch.** Induction on the entries, with the cases of `put`: the entry of the place is
replaced where it stands, and entries of other places are passed over by the lookup too. -/
theorem lookup_put (place : Place) (bytes : Bytes) (entries : List (Place × Bytes)) :
    (put place bytes entries).lookup place = some bytes := by
  induction entries with
  | nil => simp only [put, List.lookup_cons_self]
  | cons e rest ih =>
    obtain ⟨p, b⟩ := e
    unfold put
    split
    · rw [List.lookup_cons_self]
    · rename_i h
      have unlike : (place == p) = false := by
        rw [beq_eq_false_iff_ne]
        exact fun h' => h h'.symm
      rw [List.lookup_cons, unlike]
      exact ih

end Files

end DebugWire
