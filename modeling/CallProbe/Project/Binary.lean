import CallProbe.Files.Tree
import CallProbe.Probe.Error

/-! # Built binaries

Where a build leaves its binary, among other files. -/

namespace CallProbe.Project

open Files Probe

/-- The newer of two files, the first one if they are of one age. -/
def newer (best : Option (String × File)) (name : String) (f : File) : Option (String × File) :=
  match best with
  | none => some (name, f)
  | some (n, b) => if b.modified < f.modified then some (name, f) else some (n, b)

/-- Whether a file looks like a binary: it has no extension and may be executed. -/
def isBinary (name : String) (f : File) : Bool := (Path.extension? name).isNone && f.isExecutable

/-- The newest binary of a directory. -/
def newestBinary (entries : List Entry) : Option (String × File) :=
  entries.foldl (fun best e => match e with
    | .file n f => if isBinary n f then newer best n f else best
    | .dir _ _ => best) none

/-- The newest binary that builds into a directory have left, with its name. -/
def latestBinary (top : Entry) (target : List String) : Except Error (String × File) :=
  match top.at? (target ++ ["debug"]) with
  | .ok (.dir _ entries) =>
    match newestBinary entries with
    | some found => .ok found
    | none => .error .noBinary
  | _ => .error .noBinary

end CallProbe.Project
