import DebugWire.Tool.Problem

set_option autoImplicit false

/-!
# Reports of the command line

What a command leaves behind: lines on the two channels, files, and the code with which the program
ends. A command that fails is refused: the program says why and ends with code one. A command may
also be caught in a loop for ever, and then the program has no end.

## Main definitions

* `DebugWire.Tool.Ending` — how a command ends.
* `DebugWire.Tool.Work` — what a command has done.
* `DebugWire.Tool.Report` — what the program leaves behind.
-/

namespace DebugWire.Tool

/-- How a command ends. -/
inductive Ending where
  /-- The program ends with a code. -/
  | ok (code : Nat)
  /-- The command fails. -/
  | error (problem : Problem)
  /-- The command never ends. -/
  | endless

/-- The code with which the program ends, unless the command fails or goes on for ever. -/
def Ending.code? : Ending → Option Nat
  | ok code => some code
  | error _ | endless => none

/-- What a command has done. -/
structure Work where
  /-- The lines on the output channel. -/
  out : List String
  /-- The lines on the error channel. -/
  err : List String
  /-- The files afterwards. -/
  files : Files
  /-- How the command ends. -/
  result : Ending

/-- A command that fails at once. -/
def Work.failed (files : Files) (problem : Problem) : Work := ⟨[], [], files, .error problem⟩

/-- What the program leaves behind. -/
structure Report where
  /-- The lines on the output channel. -/
  out : List String
  /-- The lines on the error channel; the last one says why a command was refused. -/
  err : List String
  /-- The files afterwards. -/
  files : Files
  /-- The code with which the program ends, if it does. -/
  exit : Option Nat
  /-- Whether the command was refused. -/
  isRefused : Bool

/-- A command that is refused. -/
def Report.refused (files : Files) (reason : String) : Report := ⟨[], [reason], files, some 1, true⟩

/-- The report of a command; `warnings` were given before it. -/
def Work.report (work : Work) (warnings : List String) : Report :=
  match work.result with
  | .ok code => ⟨work.out, warnings ++ work.err, work.files, some code, false⟩
  | .error problem => ⟨work.out, warnings ++ work.err ++ [problem.line], work.files, some 1, true⟩
  | .endless => ⟨work.out, warnings ++ work.err, work.files, none, false⟩

end DebugWire.Tool
