import CallProbe.Project.Compile
import CallProbe.Files.Host

/-! # Sessions

A run of the program: the files it works on and what it has written so far. Other programs are started
through `Outside`, so a run is a function of what they do. -/

namespace CallProbe.CommandLine

open Files Probe Project

/-- What is not the program's own: a place for copies, and other programs. -/
structure Outside where
  /-- The path of the directory that projects are copied to. -/
  staging : String
  /-- The compiler, given its arguments and the tree that it is started in. -/
  compiler : List String → Disk → Output
  /-- Starts a file with arguments. -/
  start : File → List String → Except AccessError Output

/-- The state of a run. -/
structure Session where
  disk : Disk
  /-- The names that lead to the directory that paths start from. -/
  here : List String := []
  stdout : String := ""
  stderr : String := ""
  /-- What the compiler was started with, and the tree that it was started in. -/
  compiled : Option (List String × Disk) := none

/-- The machine that a run takes place on. -/
def Session.host (s : Session) : Host := s.disk.hostAt s.here

/-- A part of a run: it may end the run early, and what was done before stays done. -/
abbrev Action := ExceptT Failure (StateM Session)

namespace Action

/-- Ends the run with an error. -/
def fail {α : Type} (e : Error) : Action α := throw (.error e)

/-- The value of a computation that may end the run. -/
def ofResult {α : Type} (r : Except Failure α) : Action α :=
  match r with
  | .ok a => pure a
  | .error f => throw f

/-- The value of a computation that may end the run with an error. -/
def ofExcept {α : Type} (r : Except Error α) : Action α := ofResult (r.mapError Failure.error)

/-- The value of a computation that may be refused by the disk. -/
def ofAccess {α : Type} (r : Except AccessError α) : Action α := ofExcept (r.mapError fun e => .io e.text)

/-- Writes a line for the user. -/
def say (line : String) : Action Unit := modify fun s => { s with stderr := s.stderr ++ line ++ "\n" }

/-- Writes a result. -/
def print (text : String) : Action Unit := modify fun s => { s with stdout := s.stdout ++ text }

/-- Changes the tree of the disk. -/
def change (edit : Entry → Except AccessError Entry) : Action Unit := do
  let s ← get
  let top ← ofAccess (edit s.disk.top)
  set { s with disk := { s.disk with top } }

end Action

/-- What a run leaves behind. -/
structure Outcome where
  code : Nat
  session : Session

/-- Runs an action that gives the code to end with. An error is written for the user. -/
def Action.finish (a : Action Nat) (s : Session) : Outcome :=
  match (a.run).run s with
  | (.ok code, s) => ⟨code, s⟩
  | (.error (.error e), s) => ⟨1, { s with stderr := s.stderr ++ "error: " ++ e.message ++ "\n" }⟩
  | (.error f, s) => ⟨101, { s with stderr := s.stderr ++ f.message ++ "\n" }⟩

end CallProbe.CommandLine
