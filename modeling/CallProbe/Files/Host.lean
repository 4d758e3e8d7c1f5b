import CallProbe.Files.Tree

/-! # Machines

A machine holds the tree of the user, and after a while a copy of a part of it. A path may start at the root of the machine
or climb out of the tree it is taken from, so each tree can be reached from the other one. -/

namespace CallProbe.Files

/-- The name that a component is, if it is one. -/
def Component.name? : Component → Option String
  | name n => some n
  | _ => none

/-- The names from the root of the machine to the top of a tree. -/
def Disk.mount (d : Disk) : List String := (Path.components d.base).filterMap Component.name?

/-- The names in a tree that names from the root lead to, if they lead into it. -/
def Disk.below? (d : Disk) (place : List String) : Option (List String) :=
  if d.mount.isPrefixOf place then some (place.drop d.mount.length) else none

/-- A place in one of the trees of a machine. -/
inductive Spot where
  | own (names : List String)
  | copy (names : List String)
deriving DecidableEq, Repr

/-- The trees of a machine, each at the path of its top, and the directory that a program runs in. -/
structure Host where
  /-- The tree of the user. -/
  own : Disk
  /-- The names that lead to the directory of the program in the tree of the user. -/
  here : List String
  /-- The copy, once there is one. It hides what else is at its place. -/
  copy : Option Disk := none

/-- The machine with a tree of the user, and no copy yet. -/
def Disk.hostAt (d : Disk) (here : List String) : Host := { own := d, here }

namespace Host

/-- The link by which every program finds the directory that it runs in. -/
def selfDir : List String := ["proc", "self", "cwd"]

/-- The names in the copy that names from the root lead to. -/
def inCopy? (m : Host) (place : List String) : Option (List String) :=
  m.copy.bind (·.below? place)

/-- The place that names from the root lead to, if it is in a tree. -/
def spot? (m : Host) (place : List String) : Option Spot :=
  match m.inCopy? place with
  | some names => some (.copy names)
  | none => (m.own.below? place).map .own

/-- What is at a place. -/
def at? (m : Host) : Spot → Except AccessError Entry
  | .own names => m.own.top.at? names
  | .copy names =>
    match m.copy with
    | some d => d.top.at? names
    | none => .error .missing

/-- Whether names from the root lead to a directory on the way to a tree, or to the link. -/
def isAbove (m : Host) (place : List String) : Bool :=
  (selfDir :: m.own.mount :: (m.copy.map Disk.mount).toList).any fun way => place != way && place.isPrefixOf way

/-- Passes through what names from the root lead to, which must be a directory. -/
def enter (m : Host) (place : List String) : Except AccessError Unit :=
  if (m.inCopy? place).isNone ∧ m.isAbove place then .ok ()
  else match m.spot? place with
    | none => .error .missing
    | some s => do
      match ← m.at? s with
      | .dir _ _ => return ()
      | .file _ _ => .error .notDirectory

/-- Follows the link. -/
def resolve (m : Host) (place : List String) : List String :=
  if place = selfDir ∧ (m.inCopy? place).isNone then m.own.mount ++ m.here else place

/-- The names from the root that components lead to. What they lead through must be there. -/
def follow (m : Host) : List String → List Component → Except AccessError (List String)
  | place, [] => .ok place
  | _, .root :: rest => m.follow [] rest
  | place, .here :: rest => m.follow place rest
  | place, .up :: rest => do
    m.enter place
    m.follow place.dropLast rest
  | place, .name n :: rest => do
    m.enter place
    m.follow (m.resolve (place ++ [n])) rest

/-- Whether there is a file at a place. -/
def isFileAt (m : Host) (s : Spot) : Bool :=
  match m.at? s with
  | .ok (.file _ _) => true
  | _ => false

/-- The place that a path leads to from a directory. A slash at the end asks for a directory. -/
def locate (m : Host) (start : List String) (path : String) : Except AccessError Spot := do
  if path.isEmpty then .error .missing
  match m.spot? (← m.follow start (Path.components path)) with
  | none => .error .missing
  | some s =>
    if (path.endsWith "/" || path.endsWith "/.") && m.isFileAt s then .error .notDirectory
    return s

/-- The names in the tree of the user that a path leads to from the directory of the program. -/
def locateOwn (m : Host) (path : String) : Except AccessError (List String) := do
  match ← m.locate (m.own.mount ++ m.here) path with
  | .own names => return names
  | .copy _ => .error .missing

/-- Where a path leads to in the tree of the user. It must be there. -/
def findOwn (m : Host) (path : String) : Except AccessError (List String) := do
  let names ← m.locateOwn path
  let _ ← m.own.top.at? names
  return names

/-- Reads the text of a file of the user. -/
def readText (m : Host) (path : String) : Except AccessError String := do m.own.top.readText (← m.locateOwn path)

end Host

end CallProbe.Files
