import CallProbe.CommandLine.Run

/-! # The program

Reads arguments and files, and writes what the commands give. A command that has to start another program is
not carried out here. -/

namespace CallProbe

open CommandLine Files Probe

/-- The words for an error of the file system. -/
def accessText : IO.Error → String
  | .noFileOrDirectory .. => AccessError.missing.text
  | .permissionDenied .. => AccessError.denied.text
  | .inappropriateType .. => AccessError.isDirectory.text
  | e => toString e

/-- Reports how a command failed. -/
def report : Failure → IO UInt32
  | .error e => do
    IO.eprintln ("error: " ++ e.message)
    return 1
  | f => do
    IO.eprintln f.message
    return 101

/-- Writes the probed text of a file. -/
def expandFile (file : String) (functions : List String) (output : Option String) (calls : CallArgs) : IO UInt32 := do
  match expandPlan functions calls with
  | .error e => report (.error e)
  | .ok plan =>
    let source ← (IO.FS.readFile file).toBaseIO
    match source with
    | .error e => report (.error (.unreadable file (accessText e)))
    | .ok source =>
      match expandText file source functions plan with
      | .error f => report f
      | .ok result =>
        result.lines.forM IO.eprintln
        match output with
        | none =>
          IO.print result.source
          return 0
        | some path =>
          match ← (IO.FS.writeFile path result.source).toBaseIO with
          | .ok _ => return 0
          | .error e => report (.error (.io (accessText e)))

end CallProbe

open CallProbe CommandLine in
/-- Does what the arguments ask for. -/
def main (args : List String) : IO UInt32 := do
  match Request.parse false args with
  | .usage =>
    IO.eprint programHelp
    return 2
  | .text t =>
    IO.print t
    return 0
  | .command (.expand file functions output calls) => expandFile file functions output calls
  | .command (.build _) => report (.error (.buildFailed "starting a compiler is not supported"))
  | .command (.run _ _) => report (.error (.runFailed "starting a binary is not supported"))
