import DebugWire.StandIn.Basic

set_option autoImplicit false

/-!
# Shell lines

A shell line runs stand-ins one after the other. What stands between marks is one word; variables
have their values outside of single marks; a command may depend on how the one in front of it has
ended.

## Main definitions

* `DebugWire.Shell.expand` — a line with the values of variables.
* `DebugWire.Shell.commands` — the commands of a line.
* `DebugWire.Shell.run` — what a line does with what it reads.
-/

namespace DebugWire.Shell

/-! ## Variables -/

/-- Whether a character may stand in the name of a variable. -/
def isNameChar (c : Char) : Bool := c.isAlphanum || c = '_'

/-- A line with the values of variables in their places, but not between single marks; `quote` is
the mark that quotes at present. `fuel` bounds the number of characters. -/
def expand (env : Environment) (quote : Option Char) (fuel : Nat) (cs : List Char) : List Char :=
  match fuel, cs with
  | 0, cs => cs
  | _, [] => []
  | fuel + 1, c :: cs =>
    if quote = some '\'' then c :: expand env (if c = '\'' then none else quote) fuel cs
    else if c = '\\' then
      match cs with
      | [] => [c]
      | d :: cs => c :: d :: expand env quote fuel cs
    else if c = '$' then
      let isBraced : Bool := cs.head? = some '{'
      let cs := if isBraced then cs.tail else cs
      let name := cs.takeWhile isNameChar
      let rest := (cs.dropWhile isNameChar).drop (if isBraced then 1 else 0)
      if name.isEmpty then c :: expand env quote fuel cs
      else ((env.lookup (String.ofList name)).getD "").toList ++ expand env quote fuel rest
    else if some c = quote then c :: expand env none fuel cs
    else c :: expand env (if c = '"' ∨ c = '\'' then (quote <|> some c) else quote) fuel cs

/-! ## Commands -/

/-- What a command depends on. -/
inductive Condition where
  | always
  /-- The one in front of it has not failed. -/
  | success
  /-- The one in front of it has failed. -/
  | failure
  deriving DecidableEq

/-- A command of a line. -/
structure Step where
  /-- What it depends on. -/
  condition : Condition
  /-- Its words. -/
  words : List String

/-- The words with the one that ends, which is in reverse order. -/
def close (words : List String) (word : Option (List Char)) : List String :=
  words ++ (word.map fun w => String.ofList w.reverse).toList

/-- The commands of a line. `quote` is the mark that quotes at present, `word` the word so far in
reverse order, and `step` the command so far. -/
def commandsFrom (quote : Option Char) (word : Option (List Char)) (step : Step) :
    List Char → List Step
  | [] => [{ step with words := close step.words word }]
  | c :: cs =>
    let here := { step with words := close step.words word }
    let kept := some (c :: word.getD [])
    match quote with
    | some q =>
      if c = q then commandsFrom none (some (word.getD [])) step cs
      else
        match cs with
        | d :: ds =>
          if c = '\\' ∧ q = '"' ∧ (d = '"' ∨ d = '\\' ∨ d = '$') then
            commandsFrom quote (some (d :: word.getD [])) step ds
          else commandsFrom quote kept step (d :: ds)
        | [] => commandsFrom quote kept step []
    | none =>
      if c = '\'' ∨ c = '"' then commandsFrom (some c) (some (word.getD [])) step cs
      else if c = ';' ∨ c = '\n' then here :: commandsFrom none none ⟨.always, []⟩ cs
      else if c = ' ' ∨ c = '\t' then commandsFrom none none here cs
      else
        match cs with
        | d :: ds =>
          if c = '\\' then commandsFrom none (some (d :: word.getD [])) step ds
          else if c = '&' ∧ d = '&' then here :: commandsFrom none none ⟨.success, []⟩ ds
          else if c = '|' ∧ d = '|' then here :: commandsFrom none none ⟨.failure, []⟩ ds
          else commandsFrom none kept step (d :: ds)
        | [] => commandsFrom none kept step []

/-- The commands of a line. -/
def commands (line : List Char) : List Step := commandsFrom none none ⟨.always, []⟩ line

/-! ## Running -/

/-- Words that send what a command writes elsewhere. -/
def redirections : List String := [">&2", "1>&2", ">/dev/null", "1>/dev/null"]

/-- Words that only concern the error channel of a command. -/
def errorRedirections : List String := ["2>&1", "2>/dev/null"]

/-- What the words of a command do with what it reads. A command that is not there fails. -/
def command (env : Environment) (words : List String) : StandIn :=
  let own := words.filter fun w => !redirections.contains w && !errorRedirections.contains w
  let program : StandIn := match own with
    | [] => .writes []
    | ":" :: _ => .writes []
    | name :: args => (StandIn.ofProgram? env (StandIn.programName name) args).getD .fails
  fun input =>
    let ended := program input
    if words.any redirections.contains then { ended with out := [] } else ended

/-- What commands do with what they read, one after the other; `hasFailed` tells whether the one in
front of them has failed. A command without words changes nothing, and `exit` is the last one. -/
def runSteps (env : Environment) (hasFailed : Bool) : List Step → StandIn
  | [] => fun input => ⟨input, [], hasFailed⟩
  | step :: steps => fun input =>
    let isDue : Bool := match step.condition with
      | .always => true
      | .success => !hasFailed
      | .failure => hasFailed
    if !isDue || step.words.isEmpty then runSteps env hasFailed steps input
    else if step.words.head? = some "exit" then ⟨input, [], hasFailed⟩
    else
      let first := command env step.words input
      let later := runSteps env first.hasFailed steps first.rest
      { later with out := first.out ++ later.out }

/-- What a line does with what it reads. -/
def run (env : Environment) (line : String) : StandIn :=
  runSteps env false (commands (expand env none line.length line.toList))

end DebugWire.Shell
