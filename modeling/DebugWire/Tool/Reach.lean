import DebugWire.Tool.Basic

set_option autoImplicit false

/-!
# What a command line can reach

The files whose bytes a command may read, and the directories whose names it may list or write into.
They are all that has to be known of the outside before the program is run.

## Main definitions

* `DebugWire.Tool.Reach` — files and directories by their paths.
* `DebugWire.Tool.reach` — what a command line can reach.
-/

namespace DebugWire.Tool

/-- Files and directories by their paths. -/
structure Reach where
  /-- The files whose bytes may be read. -/
  files : List String
  /-- The directories whose names may be listed, or in which a file may be written. -/
  directories : List String

/-- What a command line can reach. The listing that a configuration names is reached when that
configuration is among the files already. -/
def reach (files : Files) (args : List String) : Reach :=
  let general := general files.current
  let own := match named? (Options.read general args) with
    | some c => c.options
    | none => []
  let o := Options.read (general ++ own) args
  let dir := (o.text? "project").getD files.current
  let config := ((Config.load files dir).1.toOption).getD {}
  let listing := (Target.nonEmpty (o.text? "debugModel" <|> config.listing)).map (Path.resolve dir)
  let output := (Target.nonEmpty (o.text? "output")).map Path.directory
  ⟨Config.place dir :: (o.text? "file").toList ++ listing.toList, dir :: output.toList⟩

end DebugWire.Tool
