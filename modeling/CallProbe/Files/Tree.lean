import CallProbe.Files.Path

/-! # Trees of files

Files and directories as values. An operation that would change the disk gives a new tree. -/

namespace CallProbe.Files

/-- A file with its permissions and the time of its last change. -/
structure File where
  bytes : ByteArray
  mode : Nat := 0o644
  modified : Int := 0
deriving Inhabited

/-- What can go wrong with a file. -/
inductive AccessError where
  | missing
  | denied
  | taken
  | notDirectory
  | isDirectory
  | notText
  /-- The file cannot be started. -/
  | notProgram
deriving DecidableEq, Repr

/-- The words of the operating system for an error. -/
def AccessError.text : AccessError → String
  | missing => "No such file or directory (os error 2)"
  | denied => "Permission denied (os error 13)"
  | taken => "File exists (os error 17)"
  | notDirectory => "Not a directory (os error 20)"
  | isDirectory => "Is a directory (os error 21)"
  | notText => "stream did not contain valid UTF-8"
  | notProgram => "Exec format error (os error 8)"

namespace File

/-- A file with a text. -/
def ofText (s : String) : File := { bytes := s.toUTF8 }

/-- Whether the owner may read the file. -/
def isReadable (f : File) : Bool := f.mode.testBit 8

/-- Whether the owner may change the file. -/
def isWritable (f : File) : Bool := f.mode.testBit 7

/-- Whether somebody may execute the file. -/
def isExecutable (f : File) : Bool := f.mode.testBit 6 || f.mode.testBit 3 || f.mode.testBit 0

/-- The text of a file. -/
def read (f : File) : Except AccessError String :=
  if !f.isReadable then .error .denied
  else match String.fromUTF8? f.bytes with
    | some s => .ok s
    | none => .error .notText

/-- A file with its text replaced. -/
def write (f : File) (s : String) : Except AccessError File :=
  if f.isWritable then .ok { f with bytes := s.toUTF8 } else .error .denied

end File

/-- A file or a directory with its name. -/
inductive Entry where
  | file (name : String) (file : File)
  | dir (name : String) (entries : List Entry)
deriving Inhabited

namespace Entry

def name : Entry → String
  | file n _ | dir n _ => n

def isDir : Entry → Bool
  | file _ _ => false
  | dir _ _ => true

/-- The entry of a directory under a name. -/
def child? (n : String) (entries : List Entry) : Option Entry := entries.find? (·.name == n)

/-- Replaces the entry under the same name, or adds one. -/
def put (e : Entry) (entries : List Entry) : List Entry :=
  if (child? e.name entries).isSome then entries.map fun x => if x.name == e.name then e else x
  else entries ++ [e]

/-- The entry that names lead to. -/
def at? : List String → Entry → Except AccessError Entry
  | [], e => .ok e
  | _ :: _, file _ _ => .error .notDirectory
  | n :: rest, dir _ entries =>
    match child? n entries with
    | none => .error .missing
    | some e => at? rest e

/-- Replaces what names lead to by what `edit` makes of it. The directories on the way must be there, unless
    they are to be made. -/
def editAt (make : Bool) (edit : Option Entry → Except AccessError Entry) :
    List String → Entry → Except AccessError Entry
  | [], e => edit (some e)
  | _ :: _, file _ _ => .error .notDirectory
  | [n], dir d entries => do
    return dir d (put (← edit (child? n entries)) entries)
  | n :: rest, dir d entries =>
    match child? n entries with
    | some e => do return dir d (put (← editAt make edit rest e) entries)
    | none => if make then do return dir d (put (← editAt make edit rest (dir n [])) entries) else .error .missing

/-- The file that names lead to. -/
def file? (names : List String) (e : Entry) : Except AccessError File := do
  match ← e.at? names with
  | file _ f => .ok f
  | dir _ _ => .error .isDirectory

/-- Whether names lead to a directory. -/
def isDirAt (names : List String) (e : Entry) : Bool :=
  match e.at? names with
  | .ok (dir _ _) => true
  | _ => false

/-- Whether names lead to a file. -/
def isFileAt (names : List String) (e : Entry) : Bool :=
  match e.at? names with
  | .ok (file _ _) => true
  | _ => false

/-- Reads the text of a file. -/
def readText (names : List String) (e : Entry) : Except AccessError String := do (← e.file? names).read

/-- Writes the text of a file, which is made if it is not there. -/
def writeText (names : List String) (s : String) (e : Entry) : Except AccessError Entry :=
  let n := names.getLast?.getD ""
  editAt false (fun
    | none => .ok (file n (File.ofText s))
    | some (file _ f) => do return file n (← f.write s)
    | some (dir _ _) => .error .isDirectory) names e

/-- Makes a directory and those on the way to it. -/
def makeDirs (names : List String) (e : Entry) : Except AccessError Entry :=
  let n := names.getLast?.getD ""
  editAt true (fun
    | none => .ok (dir n [])
    | some (dir d es) => .ok (dir d es)
    | some (file _ _) => .error .taken) names e

/-- Puts a file, with the directories on the way to it. -/
def putFile (names : List String) (f : File) (e : Entry) : Except AccessError Entry :=
  let n := names.getLast?.getD ""
  editAt true (fun
    | some (dir _ _) => .error .isDirectory
    | _ => .ok (file n f)) names e

/-- Adds a file, or a directory if there is none, with the directories on the way to it. -/
def add (e : Entry) (names : List String) : Option File → Except AccessError Entry
  | none => e.makeDirs names
  | some f => do
    let e ← if names.length ≤ 1 then pure e else e.makeDirs names.dropLast
    e.putFile names f

mutual

/-- All files of a tree with the names that lead to them. -/
def files (path : List String) : Entry → List (List String × File)
  | file n f => [(path ++ [n], f)]
  | dir n entries => filesOf (path ++ [n]) entries

def filesOf (path : List String) : List Entry → List (List String × File)
  | [] => []
  | e :: es => e.files path ++ filesOf path es

end

end Entry

/-! ### Places -/

/-- A tree with the path of its top. -/
structure Disk where
  base : String
  top : Entry

namespace Disk

/-- The path of what names lead to. -/
def pathOf (d : Disk) (names : List String) : String := names.foldl Path.join d.base

end Disk

end CallProbe.Files
