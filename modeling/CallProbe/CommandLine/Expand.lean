import CallProbe.CommandLine.Plan
import CallProbe.CommandLine.Session
import CallProbe.Probe.Instrument
import CallProbe.Project.Functions
import CallProbe.Project.Selection

/-! # Probing one file

The marked functions of a file are probed, and those whose name was selected. -/

namespace CallProbe.CommandLine

open Files Probe Project

/-- The plan for selected functions. If some are selected there must be one; `options` says what needs it. -/
def planFor (calls : CallArgs) (selections : List Selection) (options : String) : Except Error (Option Plan) :=
  match calls.plan with
  | .error f => .error (.configuration { fault := f })
  | .ok none => if selections.isEmpty then .ok none else .error (.configuration { fault := .needsPlan options })
  | .ok (some plan) => .ok (some plan)

/-- The plan for one file. -/
def expandPlan (functions : List String) (calls : CallArgs) : Except Error (Option Plan) :=
  planFor calls (functions.map Selection.byName) "--fn needs"

/-- The functions of a file that are selected. Selecting nothing is an error. -/
def selectedIn (path source : String) (selections : List Selection) : Except Error (List String) := do
  let names := (← functionsOf path source).map (·.name)
  let chosen := names.filter fun n => selections.any (·.selects path n)
  if !selections.isEmpty && chosen.isEmpty then .error (.noTargets (Selection.describe selections)) else .ok chosen

/-- The line about a probed function. -/
def probedLine (r : Probed) : String := "  " ++ r.function ++ ": " ++ toString r.callsWrapped ++ " call(s) wrapped"

/-- What expanding a file gives: its new text and what is said about it. -/
structure Expansion where
  source : String
  lines : List String

/-- Probes the text of a file. -/
def expandText (path source : String) (functions : List String) (plan : Option Plan) : Except Failure Expansion := do
  let targets ← (selectedIn path source (functions.map Selection.byName)).mapError Failure.error
  let result ← instrument path source targets plan
  return ⟨result.source, result.probed.map probedLine⟩

/-- Writes a text to the file that a path leads to. -/
def writeTo (path text : String) : Action Unit := do
  let s ← get
  let names ← Action.ofAccess (s.host.locateOwn path)
  if path.endsWith "/" then Action.fail (.io AccessError.isDirectory.text)
  Action.change (·.writeText names text)

/-- Writes the probed text of a file. -/
def expand (file : String) (functions : List String) (output : Option String) (calls : CallArgs) : Action Nat := do
  let plan ← Action.ofExcept (expandPlan functions calls)
  let s ← get
  let source ← Action.ofExcept ((s.host.readText file).mapError fun e => .unreadable file e.text)
  let result ← Action.ofResult (expandText file source functions plan)
  result.lines.forM Action.say
  match output with
  | some path => writeTo path result.source
  | none => Action.print result.source
  return 0

end CallProbe.CommandLine
