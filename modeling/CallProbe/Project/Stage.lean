import CallProbe.Files.Host
import CallProbe.Files.Walk
import CallProbe.Probe.Instrument
import CallProbe.Project.Compile
import CallProbe.Project.Dependency

/-! # Staged projects

A project is probed in a copy, so the tree of the user stays as it is, unless its manifest names a file outside of the copy
to start in. A member of a workspace is copied together with its workspace, because its manifest may refer to it. -/

namespace CallProbe.Project

open Files Probe Manifest

/-! ### Manifests -/

/-- The name of a manifest. -/
def manifestName : String := "Cargo.toml"

/-- Reads the manifest in a directory. -/
def readManifest (d : Disk) (dir : List String) : Except Error Document := do
  let names := dir ++ [manifestName]
  let path := d.pathOf names
  let text ← (d.top.readText names).mapError fun e => Error.unreadable path e.text
  match Document.parse text with
  | some doc => .ok doc
  | none => .error (.buildFailed (path ++ " is not valid TOML"))

/-- Whether a directory is the top of a workspace. A manifest that cannot be read does not count. -/
def isWorkspace (d : Disk) (dir : List String) : Bool :=
  match readManifest d dir with
  | .ok doc => (Item.find? "workspace" doc.entries).isSome
  | .error _ => false

/-- The nearest directory above a project that is the top of a workspace. -/
def enclosingWorkspace? (d : Disk) (project : List String) : Option (List String) :=
  ((List.range project.length).reverse.map (project.take ·)).find? (isWorkspace d ·)

/-- The name of the package of a project. -/
def packageName (d : Disk) (project : List String) : Except Error String := do
  let doc ← readManifest d project
  match ((doc.toData.get? "package").bind (·.get? "name")).bind Data.text? with
  | some name => .ok name
  | none => .error (.buildFailed (d.pathOf project ++ " has no package.name"))

/-! ### Copies -/

/-- What is copied: everything that is not ignored, apart from the build directory at the start. -/
def stagingWalk : Walk where
  skipsHidden := false
  needsRepository := false
  leavesOut name := name == "target"

/-- Adds what was found at some names to a copy. A file must be readable. -/
def addCopy (copy : Entry) (names : List String) : Entry → Except AccessError Entry
  | .dir _ _ => copy.makeDirs names
  | .file _ f => if f.isReadable then copy.putFile names f else .error .denied

/-- A copy of the directory that names lead to. -/
def copyTree (top : Entry) (dir : List String) : Except AccessError Entry := do
  (← stagingWalk.run top dir).foldlM (fun copy (names, e) => addCopy copy (names.drop dir.length) e) (.dir "" [])

/-- A copy of a project. -/
structure Staged where
  disk : Disk
  /-- The names that lead to the package that is probed. -/
  member : List String
  /-- The name of the package, if a whole workspace was copied. -/
  package : Option String

namespace Staged

/-- Copies a project to a place. -/
def copy (d : Disk) (project : List String) (place : String) : Except Error Staged := do
  let (root, package) ← match enclosingWorkspace? d project with
    | some root => (do return (root, some (← packageName d project)))
    | none => pure (project, none)
  let top ← (copyTree d.top root).mapError fun e => Error.io e.text
  return { disk := ⟨place, top⟩, member := project.drop root.length, package }

/-- The names that lead to a file of the package. -/
def names (s : Staged) (inPackage : List String) : List String := s.member ++ inPackage

/-- Writes the text of a file of the package. -/
def write (s : Staged) (inPackage : List String) (text : String) : Except Error Staged := do
  let top ← (s.disk.top.writeText (s.names inPackage) text).mapError fun e => Error.io e.text
  return { s with disk := { s.disk with top } }

/-- Makes the package depend on the runtime. -/
def addRuntime (s : Staged) (source : RuntimeSource) (features : List String) : Except Error Staged := do
  let doc ← readManifest s.disk s.member
  s.write [manifestName] (withRuntime doc source features).text

/-- The file that the binary of a package starts in: the first one that the manifest declares, or else the
    usual one. -/
def declaredEntry (manifest : Data) : String :=
  (((manifest.get? "bin").bind Data.tables?).bind fun bins =>
    bins.findSome? fun bin => (bin.get? "path").bind Data.text?).getD "src/main.rs"

/-- The machine that a copy was made on. -/
def host (s : Staged) (own : Disk) (here : List String) : Host := { own.hostAt here with copy := some s.disk }

/-- The path of the file that the binary starts in and the place it leads to, if there is a file. The path is taken from
    the package in the copy, but need not stay there. -/
def entry? (s : Staged) (own : Disk) (here : List String) : Except Error (Option (String × Spot)) := do
  let path := declaredEntry (← readManifest s.disk s.member).toData
  let m := s.host own here
  return match m.locate (s.disk.mount ++ s.member) path with
    | .ok spot => if m.isFileAt spot then some (path, spot) else none
    | .error _ => none

/-- Makes the file that names lead to set up a place for reports to go to. -/
def injectAt (path : String) (names : List String) (top : Entry) : Except Failure Entry := do
  let source ← (top.readText names).mapError fun e => Failure.error (.unreadable path e.text)
  let probed ← injectSubscriber path source
  (top.writeText names probed).mapError fun e => Failure.error (.io e.text)

/-- Makes the binary set up a place for reports to go to. Gives the file that was changed, if there is a
    binary. -/
def enableLogging (s : Staged) (own : Disk) (here : List String) : Except Failure (Staged × Disk × Option String) := do
  match ← (s.entry? own here).mapError Failure.error with
  | none => return (s, own, none)
  | some (path, .copy names) =>
    let top ← injectAt path names s.disk.top
    return ({ s with disk := { s.disk with top } }, own, some path)
  | some (path, .own names) =>
    let top ← injectAt path names own.top
    return (s, { own with top }, some path)

/-- What is said when there is no binary to report from. -/
def noEntryMessage : String := "no binary entry point; profiler reports need a subscriber"

end Staged

end CallProbe.Project
