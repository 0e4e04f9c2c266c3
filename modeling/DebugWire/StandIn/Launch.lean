import DebugWire.Client.Basic
import DebugWire.Project.Path
import DebugWire.StandIn.Shell

set_option autoImplicit false

/-!
# Starting stand-ins

A stand-in is started by the name of the program alone or by its place, and a shell runs lines of
them. No program can be started in a directory that is not there.

## Main definitions

* `DebugWire.Launch` — a program to be started.
* `DebugWire.Launch.program?` — the stand-in that is started.
* `DebugWire.Launch.converse` — what a client lets out when it sends commands to a stand-in.
-/

namespace DebugWire

/-- A program to be started. -/
structure Launch where
  /-- Its name or place. -/
  command : String
  /-- Its arguments. -/
  args : List String := []
  /-- The variables that are given to it. -/
  env : Environment := []
  /-- The directory to start it in; the current one if there is none. -/
  directory : Option String := none

namespace Launch

/-- The directories that are always there. -/
def commonDirectories : List String :=
  ["", ".", "..", "/", "/bin", "/dev", "/etc", "/home", "/lib", "/opt", "/proc", "/root",
    "/sbin", "/sys", "/tmp", "/usr", "/usr/bin", "/usr/lib", "/usr/local", "/var", "/var/tmp"]

/-- Whether a directory is one of those that are always there. -/
def isCommon (directory : String) : Bool :=
  commonDirectories.contains directory
    || (Path.isAbsolute directory &&
        commonDirectories.any fun d => Path.key d == Path.key directory)

/-- The stand-in that is started, if there is one. -/
def program? (l : Launch) : Option StandIn :=
  if !(l.directory.all isCommon) then none
  else
    match StandIn.programName l.command, l.args with
    | "sh", "-c" :: line :: _ => some (Shell.run l.env line)
    | name, args => StandIn.ofProgram? l.env name args

/-- What is said of a program that cannot be started. -/
def noProgram : String := "no such program"

/-- What a client lets out when it starts a stand-in, sends it commands and reads until it ends. -/
def converse (l : Launch) (client : Client) (commands : List Command) :
    Except Fault (Client × List ClientTrace) :=
  match l.program? with
  | none => .error (.startFailed l.command noProgram)
  | some program =>
    let reply := (client.bind (.fresh none)).sendAll commands
    let input := (reply.trace.filterMap ClientTrace.sent?).flatten
    let (client, t) := reply.client.run [.received (program input).out, .sourceEnded]
    .ok (client, reply.trace ++ t)

end Launch

end DebugWire
