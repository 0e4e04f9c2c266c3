import DebugWire.Tool.Reach

set_option autoImplicit false

/-!
# The program

Reads what the command line can reach, runs it, and carries out what it has left behind.

## Main definitions

* `DebugWire.Main.gather` — the files and directories that are reached.
* `main` — the program.
-/

namespace DebugWire.Main

/-- A file with its bytes, if it can be read. -/
def readFile (path : String) : IO (List (String × Bytes)) := do
  try
    if ← (← IO.FS.realPath path).isDir then return []
    return [(path, (← IO.FS.readBinFile path).toList)]
  catch _ =>
    return []

/-- The directories at a path and right below it, and the paths of the files in it. -/
def readDirectory (path : String) : IO (List String × List String) := do
  try
    let entries ← (← IO.FS.realPath path).readDir
    let below ← entries.toList.mapM fun e => do return (path ++ "/" ++ e.fileName, ← e.path.isDir)
    return (path :: (below.filter (·.2)).map (·.1), (below.filter (!·.2)).map (·.1))
  catch _ =>
    return ([], [])

/-- The files and directories that are reached. What is only listed in a directory comes without its
bytes. -/
def gather (current : String) (reach : Tool.Reach) : IO Files := do
  let files ← (reach.files.map (Path.resolve current)).mapM readFile
  let places := (reach.directories ++ reach.files).map (Path.resolve current)
  let directories ← places.mapM readDirectory
  let listed := directories.flatMap (·.2)
  return Files.ofList (files.flatten ++ listed.map fun path => (path, []))
    (directories.flatMap (·.1)) current

/-- Writes a file, and makes its directory first. -/
def writeFile (path : String) (bytes : Bytes) : IO Unit := do
  IO.FS.createDirAll (Path.directory path)
  IO.FS.writeBinFile path ⟨bytes.toArray⟩

end DebugWire.Main

open DebugWire in
/-- The program. -/
def main (args : List String) : IO UInt32 := do
  let current := (← IO.currentDir).toString
  let nothing := Files.ofList [] [current] current
  let first ← Main.gather current (Tool.reach nothing args)
  let files ← Main.gather current (Tool.reach first args)
  let report := Tool.run files args
  for (path, bytes) in files.changes report.files do
    Main.writeFile path bytes
  for line in report.out do
    IO.println line
  for line in report.err do
    IO.eprintln line
  match report.exit with
  | some code => return code.toUInt32
  | none =>
    repeat IO.sleep 1000
    return 0
