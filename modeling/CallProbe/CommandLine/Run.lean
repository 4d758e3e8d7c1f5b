import CallProbe.CommandLine.Build
import CallProbe.CommandLine.Request
import CallProbe.Project.Binary

/-! # Running the program

What each command does to the files it finds. -/

namespace CallProbe.CommandLine

open Files Probe Project

/-- Starts the binary of a project that was built last. -/
def runBinary (outside : Outside) (project : String) (args : List String) : Action Nat := do
  let s ← get
  let target := Path.join (Path.join project "target") "shallow"
  let names ← match s.host.locateOwn target with
    | .ok names => pure names
    | .error _ => Action.fail .noBinary
  let (name, file) ← Action.ofExcept (latestBinary s.disk.top names)
  let path := Path.join (Path.join target "debug") name
  Action.say ("running: " ++ path)
  match outside.start file args with
  | .error e => Action.fail (.runFailed ("failed to run " ++ path ++ ": " ++ e.text))
  | .ok out =>
    modify fun s => { s with stdout := s.stdout ++ out.stdout, stderr := s.stderr ++ out.stderr }
    return out.code

/-- Does what a command asks for. -/
def Command.perform (outside : Outside) : Command → Action Nat
  | .expand file functions output calls => CommandLine.expand file functions output calls
  | .build args => CommandLine.build outside args
  | .run project args => runBinary outside project args

/-- What a command leaves behind when it is given to the program in a directory. -/
def Command.outcome (outside : Outside) (c : Command) (disk : Disk) (here : List String) : Outcome :=
  (c.perform outside).finish { disk, here }

end CallProbe.CommandLine
