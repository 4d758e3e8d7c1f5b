import CallProbe.Files.Walk
import CallProbe.Project.Functions
import CallProbe.Project.Selection

/-! # Targets

Which functions of a source directory are probed: the marked ones, and those that were selected. -/

namespace CallProbe.Project

open Files Probe

/-- The functions to probe in one file. -/
structure Target where
  /-- The names that lead to the file. -/
  file : List String
  /-- The selected functions, sorted. -/
  functions : List String
  /-- The marked functions, sorted. -/
  marked : List String
deriving DecidableEq, Repr

/-- Texts in increasing order, each once. -/
def sortedOnce (names : List String) : List String := dropRepeats (names.mergeSort fun a b => decide (a ≤ b))

/-- The order of files: name by name. -/
def namesLe (a b : List String) : Bool := !Path.lt.ltComponents (b.map .name) (a.map .name)

/-- How sources are searched: hidden entries do not count, and rules for version control count only in a
    repository. -/
def sourceWalk : Walk where
  skipsHidden := true
  needsRepository := true
  leavesOut _ := false

/-- The source files below a directory, in order. -/
def sourceFiles (d : Disk) (src : List String) : Except Error (List (List String × File)) :=
  match sourceWalk.run d.top src with
  | .error e =>
    let path := d.pathOf src
    .error (.io (path ++ ": IO error for operation on " ++ path ++ ": " ++ e.text))
  | .ok found =>
    let files := found.filterMap fun (names, e) => match e with
      | .file n f => if Path.extension? n = some "rs" then some (names, f) else none
      | .dir _ _ => none
    .ok (files.mergeSort fun a b => namesLe a.1 b.1)

/-- The functions to probe in one file, if there are some. -/
def targetOf? (d : Disk) (selections : List Selection) (names : List String) (f : File) :
    Except Error (Option Target) := do
  let path := d.pathOf names
  let source ← f.read.mapError fun e => .unreadable path e.text
  let found ← functionsOf path source
  let marked := (found.filter (·.marked)).map (·.name)
  let functions := (found.filter fun x => selections.any (·.selects path x.name)).map (·.name)
  return if marked.isEmpty && functions.isEmpty then none
    else some ⟨names, sortedOnce functions, sortedOnce marked⟩

/-- What was looked for in vain. -/
def wanted (selections : List Selection) : String :=
  if selections.isEmpty then "no #[wrap_calls] or #[profile] markers found" else Selection.describe selections

/-- The functions to probe below a source directory, file by file. Finding none is an error. -/
def resolveTargets (d : Disk) (src : List String) (selections : List Selection) : Except Error (List Target) := do
  let found ← (← sourceFiles d src).mapM fun (names, f) => targetOf? d selections names f
  match found.filterMap id with
  | [] => .error (.noTargets (wanted selections))
  | targets => return targets

end CallProbe.Project
