import CallProbe.Probe.Error
import CallProbe.Text.Json

/-! # Compiling

The compiler is another program. It is given arguments, and what it writes is read: a message a line, which
holds a diagnostic or names an executable that was built. -/

namespace CallProbe.Project

open Probe Text

/-- What a program wrote, and the code it ended with. -/
structure Output where
  stdout : String
  stderr : String
  code : Nat
deriving DecidableEq, Repr

/-- What the compiler said. -/
structure Messages where
  /-- The diagnostics, in order. -/
  diagnostics : List String := []
  /-- The last executable. -/
  executable : Option String := none
deriving DecidableEq, Repr

namespace Messages

/-- Takes a line into account. A line that is no message does not count. -/
def add (m : Messages) (line : String) : Messages :=
  match Json.parse? line with
  | none => m
  | some j =>
    match (j.get? "reason").bind Json.text? with
    | some "compiler-message" =>
      match ((j.get? "message").bind (·.get? "rendered")).bind Json.text? with
      | some text => { m with diagnostics := m.diagnostics ++ [text] }
      | none => m
    | some "compiler-artifact" =>
      match (j.get? "executable").bind Json.text? with
      | some path => { m with executable := some path }
      | none => m
    | _ => m

/-- The messages of an output. -/
def parse (stdout : String) : Messages := (lines stdout).foldl add {}

end Messages

/-- The arguments of the compiler, for one package of several if it is named. -/
def compilerArgs (package : Option String) : List String :=
  ["build", "--message-format=json"] ++ match package with
    | some p => ["-p", p]
    | none => []

/-- The executable that was built. A failed build gives the diagnostics, or else what was written as errors. -/
def executableOf (out : Output) : Except Error String :=
  let m := Messages.parse out.stdout
  if out.code ≠ 0 then
    .error (.buildFailed (if m.diagnostics.isEmpty then out.stderr else String.join m.diagnostics))
  else match m.executable with
    | some path => .ok path
    | none => .error (.buildFailed "cargo reported no executable")

end CallProbe.Project
