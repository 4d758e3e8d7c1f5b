import CallProbe.CommandLine.Flag

/-! # Commands

What the program can be asked to do. -/

namespace CallProbe.CommandLine

open Time

/-- The options for functions that are selected. -/
structure CallArgs where
  wrapper : Option String := none
  timeLimit : Option Float64 := none
  ignorePrelude : Bool := false
  blacklist : List String := []
  whitelist : List String := []

/-- The arguments of a build. -/
structure BuildArgs where
  functions : List String := []
  files : List String := []
  modules : List String := []
  project : String := "."
  runtimePath : Option String := none
  calls : CallArgs := {}

/-- Something to do. -/
inductive Command where
  /-- Write the probed text of one file. -/
  | expand (file : String) (functions : List String) (output : Option String) (calls : CallArgs)
  /-- Probe a copy of a project and compile it. -/
  | build (args : BuildArgs)
  /-- Start the binary that was built last. -/
  | run (project : String) (args : List String)

/-! ### Their arguments -/

/-- The flag of every command. -/
def debugFlag : Flag := { name := "debug", about := "Log engine internals to stderr" }

/-- The flags for functions that are selected. -/
def callFlags : List Flag :=
  [{ name := "wrapper", value := some { word := "PATH" },
     about := "Wrap each call with PATH, called as PATH(&'static CallSite)" },
   { name := "time-limit", value := some { word := "SECS", kind := .seconds },
     about := "Profile instead, reporting invocations against SECS" },
   { name := "ignore-builtins", about := "Skip calls to prelude functions and std methods" },
   { name := "blacklist", value := some { word := "NAME" }, repeats := true,
     about := "Do not wrap calls matching NAME (repeatable; `[*]` matches any index)" },
   { name := "whitelist", value := some { word := "NAME" }, repeats := true,
     about := "Wrap only calls matching NAME (repeatable; `[*]` matches any index)" }]

/-- The flag that names a project. -/
def projectFlag : Flag where
  name := "project"
  value := some { word := "PROJECT", kind := .path, usual := some "." }
  about := "Project root (defaults to current directory)"

def expandSpec : CommandSpec where
  name := "expand"
  about := "Print the rewritten source of a single file"
  positional := some { word := "FILE", kind := .path, required := true, about := "File to rewrite" }
  flags :=
    [debugFlag,
     { name := "fn", value := some { word := "PATTERN" }, repeats := true,
       about := "Also rewrite unmarked functions whose name contains PATTERN (repeatable). " ++
         "Needs --wrapper or --time-limit" },
     { name := "output", letter := some 'o', value := some { word := "PATH", kind := .path },
       about := "Write the result here instead of stdout" }] ++ callFlags

def buildSpec : CommandSpec where
  name := "build"
  about := "Rewrite a staged copy of the project and build it"
  flags :=
    [debugFlag,
     { name := "fn", value := some { word := "PATTERN" }, repeats := true,
       about := "Rewrite functions whose name contains PATTERN (repeatable). " ++
         "e.g. --fn parse matches parse, parse_line, MyStruct::try_parse" },
     { name := "file", value := some { word := "PATH", kind := .path }, repeats := true,
       about := "Rewrite all functions in a file (repeatable)" },
     { name := "mod", value := some { word := "NAME" }, repeats := true,
       about := "Rewrite all functions in a module (repeatable)" },
     projectFlag,
     { name := "runtime-path", value := some { word := "RUNTIME_PATH", kind := .path },
       about := "Path to shallow-runtime source (for development before publishing)" }] ++ callFlags

def runSpec : CommandSpec where
  name := "run"
  about := "Execute the last-built rewritten binary. Pass arguments to the binary after --"
  positional := some { word := "ARGS", many := true, last := true, about := "Arguments to pass to the binary (after --)" }
  flags := [debugFlag, projectFlag]

def helpSpec : CommandSpec where
  name := "help"
  about := "Print this message or the help of the given subcommand(s)"
  positional := some { word := "COMMAND", many := true, about := "Print help for the subcommand(s)" }

/-- All commands, in the order of help texts. -/
def commandSpecs : List CommandSpec := [expandSpec, buildSpec, runSpec, helpSpec]

/-! ### Commands from arguments -/

/-- The options for selected functions. Two that exclude each other are refused. -/
def CallArgs.ofGiven (g : Given) : Except Stop CallArgs :=
  if (g.has "wrapper" && g.has "time-limit") || (g.has "blacklist" && g.has "whitelist") then .error .usage
  else .ok {
    wrapper := g.value? "wrapper"
    timeLimit := (g.value? "time-limit").bind Float64.parse
    ignorePrelude := g.has "ignore-builtins"
    blacklist := g.values "blacklist"
    whitelist := g.values "whitelist" }

/-- The command that arguments of `expand` give. -/
def readExpand (args : List String) : Except Stop Command := do
  let g ← expandSpec.parse args
  return .expand (g.others.headD "") (g.values "fn") (g.value? "output") (← CallArgs.ofGiven g)

/-- The command that arguments of `build` give. -/
def readBuild (args : List String) : Except Stop Command := do
  let g ← buildSpec.parse args
  return .build {
    functions := g.values "fn"
    files := g.values "file"
    modules := g.values "mod"
    project := (g.value? "project").getD "."
    runtimePath := g.value? "runtime-path"
    calls := ← CallArgs.ofGiven g }

/-- The command that arguments of `run` give. -/
def readRun (args : List String) : Except Stop Command := do
  let g ← runSpec.parse args
  return .run ((g.value? "project").getD ".") g.others

end CallProbe.CommandLine
