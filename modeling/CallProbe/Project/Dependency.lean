import CallProbe.Manifest.Printer

/-! # The runtime dependency

Probed code calls the runtime, so its package has to depend on it. Nothing else in a manifest changes, and
what an existing dependency asked for is kept. -/

namespace CallProbe.Project

open Manifest

/-- Where the runtime is taken from. -/
inductive RuntimeSource where
  /-- A published version. -/
  | version (number : String)
  /-- A local checkout. -/
  | path (place : String)
deriving DecidableEq, Repr

/-- The entry that says where the runtime is taken from. -/
def RuntimeSource.entry : RuntimeSource → String × Data
  | version n => ("version", .text n)
  | path p => ("path", .text p)

/-- Features followed by those of `more` that are not among them yet. -/
def addFeatures (features more : List String) : List String :=
  more.foldl (fun fs f => if fs.contains f then fs else fs ++ [f]) features

/-- The features that a dependency asks for. -/
def featuresOf (existing : Option Data) : List String :=
  ((existing.bind (·.get? "features")).bind Data.texts?).getD []

/-- Whether a dependency asks for the default features, if it says so. -/
def defaultsOf (existing : Option Data) : Option Bool :=
  (existing.bind (·.get? "default-features")).bind Data.truth?

/-- The value of a dependency. A version alone is written as a text. -/
def dependencyValue (source : RuntimeSource) (defaults : Option Bool) (features : List String) : Value :=
  match source, defaults, features with
  | .version n, none, [] => Value.ofText n
  | _, _, _ => Value.ofEntries
    (source.entry ::
      ((match defaults with
        | some b => [("default-features", .truth b)]
        | none => []) ++
      (if features.isEmpty then [] else [("features", .array (features.map .text))])))

/-- The dependency on the runtime, given the one that is there. -/
def runtimeDependency (existing : Option Data) (source : RuntimeSource) (features : List String) : Value :=
  dependencyValue source (defaultsOf existing) (addFeatures (featuresOf existing) features)

/-- The name of the runtime. -/
def runtimeName : String := "shallow-runtime"

/-- The table of dependencies of a document with its key, and an empty one in place of anything else. -/
def dependencyTable (entries : List Item) : Key × Head × List Item :=
  match Item.find? "dependencies" entries with
  | some (.table key head inner) => (key, head, inner)
  | some other => (other.key, {}, [])
  | none => (Key.new "dependencies", {}, [])

/-- A document that depends on the runtime. The key of a dependency that is there stays as it is. -/
def withRuntime (doc : Document) (source : RuntimeSource) (features : List String) : Document :=
  let (key, head, inner) := dependencyTable doc.entries
  let existing := Item.find? runtimeName inner
  let runtimeKey := (existing.map Item.key).getD (Key.new runtimeName)
  let dependency := runtimeDependency (existing.map Item.toData) source features
  { doc with entries := Item.put (.table key head (Item.put (.value runtimeKey dependency) inner)) doc.entries }

end CallProbe.Project
