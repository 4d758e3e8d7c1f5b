import CallProbe.CommandLine.Expand
import CallProbe.CommandLine.Help
import CallProbe.Project.Stage
import CallProbe.Project.Targets

/-! # Building a project

A project is copied, the copy is probed and compiled. In the tree of the user the directory for results is made. -/

namespace CallProbe.CommandLine

open Files Probe Project

/-- The selections that arguments make. -/
def BuildArgs.selections (a : BuildArgs) : List Selection :=
  a.functions.map .byName ++ a.files.map .byFile ++ a.modules.map .byModule

/-- The lines about what was found, with paths from the source directory. -/
def foundLines (src : List String) (targets : List Target) : List String :=
  let count := targets.foldl (fun n t => n + t.functions.length + t.marked.length) 0
  ("found " ++ toString count ++ " function(s) across " ++ toString targets.length ++ " file(s)") ::
    targets.flatMap fun t =>
      ("  " ++ Text.joinWith "/" (t.file.drop src.length) ++ ":") ::
        (t.marked.map fun f => "    " ++ f ++ " (marked)") ++ t.functions.map fun f => "    " ++ f

/-- Probes one file of a copy. Gives whether a function is profiled now. -/
def probeStaged (s : Staged) (project : List String) (plan : Option Plan) (t : Target) :
    Except Failure (Staged × Bool) := do
  let inPackage := t.file.drop project.length
  let path := Text.joinWith "/" inPackage
  let source ← (s.disk.top.readText (s.names inPackage)).mapError fun e => Failure.error (.unreadable path e.text)
  let result ← instrument path source t.functions plan
  let s ← (s.write inPackage result.source).mapError Failure.error
  return (s, result.probed.any (·.profiled))

/-- Probes files of a copy, one after the other. -/
def probeAll (project : List String) (plan : Option Plan) :
    List Target → Staged → Bool → Except Failure (Staged × Bool)
  | [], s, profiled => .ok (s, profiled)
  | t :: ts, s, profiled => do
    let (s, p) ← probeStaged s project plan t
    probeAll project plan ts s (profiled || p)

/-- Makes the package of a copy ready to be compiled: it depends on the runtime, and a profiled one sets up a
    place for reports. Gives the tree of the user as well. -/
def prepare (s : Staged) (own : Disk) (here : List String) (source : RuntimeSource) (profiled : Bool) :
    Except Failure (Staged × Disk) := do
  let s ← (s.addRuntime source (if profiled then ["subscriber"] else [])).mapError Failure.error
  if profiled then
    let (s, own, _) ← s.enableLogging own here
    return (s, own)
  else return (s, own)

/-- Where the runtime is taken from. -/
def runtimeSource (s : Session) : Option String → Except AccessError RuntimeSource
  | none => .ok (.version version)
  | some path => do return .path (s.disk.pathOf (← s.host.findOwn path))

/-- The names that lead to a project. -/
def findProject (s : Session) (path : String) : Except Error (List String) :=
  (s.host.findOwn path).mapError fun _ => .buildFailed ("project directory does not exist: " ++ path)

/-- The source directory of a project. -/
def sourceDir (d : Disk) (project : List String) : Except Error (List String) :=
  let src := project ++ ["src"]
  if d.top.isDirAt src then .ok src
  else .error (.buildFailed ("no src/ directory found in " ++ d.pathOf project ++ " -- is this a Rust project?"))

/-- Probes and compiles a copy of a project. Gives the path of the binary. -/
def buildProject (outside : Outside) (a : BuildArgs) : Action String := do
  let disk := (← get).disk
  let project ← Action.ofExcept (findProject (← get) a.project)
  let plan ← Action.ofExcept (planFor a.calls a.selections "--fn, --file and --mod need")
  let src ← Action.ofExcept (sourceDir disk project)
  let targets ← Action.ofExcept (resolveTargets disk src a.selections)
  (foundLines src targets).forM Action.say
  let staged ← Action.ofExcept (Staged.copy disk project outside.staging)
  let (staged, profiled) ← Action.ofResult (probeAll project plan targets staged false)
  let source ← Action.ofAccess (runtimeSource (← get) a.runtimePath)
  let (staged, own) ← Action.ofResult (prepare staged disk (← get).here source profiled)
  modify fun s => { s with disk := own }
  Action.change (·.makeDirs (project ++ ["target", "shallow"]))
  let args := compilerArgs staged.package
  modify fun s => { s with compiled := some (args, staged.disk) }
  Action.ofExcept (executableOf (outside.compiler args staged.disk))

/-- Probes and compiles a copy of a project, and says where the binary is. -/
def build (outside : Outside) (a : BuildArgs) : Action Nat := do
  let binary ← buildProject outside a
  Action.say ("built: " ++ (Path.fileName? binary).getD binary)
  Action.print (binary ++ "\n")
  return 0

end CallProbe.CommandLine
