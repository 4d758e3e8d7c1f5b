import CallProbe.Files.Glob
import CallProbe.Files.Tree

/-! # Walking a tree

A walk finds the files of a tree that no ignore file leaves out. A rule counts for the directory of its
ignore file and everything below; the deepest file that says something about an entry decides, and in it the
last line that does. What a rule leaves out is not searched, so nothing below it can be taken back. -/

namespace CallProbe.Files

/-! ### Rules -/

/-- A line of an ignore file. -/
structure Rule where
  /-- Whether what matches is taken back rather than left out. -/
  keeps : Bool
  /-- Whether only directories match. -/
  onlyDirs : Bool
  glob : List GlobPart
deriving Repr

namespace Rule

/-- The glob of a line, from what is left of it after marks: without a slash it matches at any depth, and one
    for everything inside a directory does not match the directory. -/
def globText (anchored : Bool) (line : String) : String :=
  let deep := !anchored && !line.toList.contains '/' && line != "**"
  let text := if deep then "**/" ++ line else line
  if text.endsWith "/**" then text ++ "/*" else text

/-- A line without blanks at its end, unless the last one is escaped. -/
def trimEnd (line : String) : String :=
  if line.endsWith "\\ " then line else String.ofList (line.toList.reverse.dropWhile Text.isBlank).reverse

/-- The rest of a line after an escape, or a mark that takes matches back, and after a slash in front. -/
def marks (line : String) : Bool × Bool × String :=
  match line.toList with
  | '\\' :: '!' :: cs => (false, false, String.ofList ('!' :: cs))
  | '\\' :: '#' :: cs => (false, false, String.ofList ('#' :: cs))
  | '!' :: '/' :: cs => (true, true, String.ofList cs)
  | '!' :: cs => (true, false, String.ofList cs)
  | '/' :: cs => (false, true, String.ofList cs)
  | cs => (false, false, String.ofList cs)

/-- A line without a slash at its end, and whether it had one. -/
def dropSlash (line : String) : Bool × String :=
  match line.toList.reverse with
  | '/' :: '\\' :: cs | '/' :: cs => (true, String.ofList cs.reverse)
  | _ => (false, line)

/-- The rule of a line. -/
def parse? (line : String) : Option Rule :=
  let line := trimEnd line
  if line.startsWith "#" ∨ line = "" then none
  else
    let (keeps, anchored, rest) := marks line
    let (onlyDirs, rest) := dropSlash rest
    (Glob.parse (globText anchored rest)).map fun glob => { keeps, onlyDirs, glob }

/-- The lines of some bytes up to the first one that is not text, each without its line end, with `line` the
    bytes of the first one read so far, backwards. -/
def linesFrom : List UInt8 → List UInt8 → List String
  | line, [] => if line.isEmpty then [] else (textOf? line).toList
  | line, b :: bs =>
    if b = 10 then
      match textOf? (if line.head? = some 13 then line.tail else line) with
      | some text => text :: linesFrom [] bs
      | none => []
    else linesFrom (b :: line) bs
where
  textOf? (line : List UInt8) : Option String := String.fromUTF8? ⟨line.reverse.toArray⟩

/-- The rules of the bytes of an ignore file. Byte order marks in front do not count. -/
def parseAll (bytes : List UInt8) : List Rule :=
  match linesFrom [] bytes with
  | [] => []
  | first :: rest =>
    (String.ofList (first.toList.dropWhile (·.toNat = 0xFEFF)) :: rest).filterMap parse?

/-- Whether a rule is about an entry at a path below the directory of the rule. -/
def isAbout (r : Rule) (path : List String) (isDir : Bool) : Bool :=
  (!r.onlyDirs || isDir) && Glob.isMatch r.glob (Text.joinWith "/" path).toUTF8.toList

/-- What rules say about an entry: whether the last one that is about it keeps it. -/
def verdict? (rules : List Rule) (path : List String) (isDir : Bool) : Option Bool :=
  (rules.reverse.find? (·.isAbout path isDir)).map (·.keeps)

end Rule

/-- The rules of one directory. -/
structure Rules where
  /-- How many names lead to the directory. -/
  depth : Nat
  plain : List Rule
  /-- The rules for version control. -/
  versioned : List Rule
  /-- The rules for version control that are kept inside the repository. -/
  excluded : List Rule
  /-- Whether the directory is the top of a repository. -/
  repository : Bool

/-- The rules in a file of a directory. -/
def rulesIn (name : String) (entries : List Entry) : List Rule :=
  match Entry.child? name entries with
  | some (.file _ f) => if f.isReadable then Rule.parseAll f.bytes.toList else []
  | _ => []

/-- The entries of the directory under a name. -/
def entriesIn (name : String) (entries : List Entry) : List Entry :=
  match Entry.child? name entries with
  | some (.dir _ inner) => inner
  | _ => []

/-- The rules of a directory. -/
def Rules.of (depth : Nat) (entries : List Entry) : Rules where
  depth
  plain := rulesIn ".ignore" entries
  versioned := rulesIn ".gitignore" entries
  excluded := rulesIn "exclude" (entriesIn "info" (entriesIn ".git" entries))
  repository := (Entry.child? ".git" entries).isSome

/-! ### The walk -/

/-- What a walk leaves out besides. -/
structure Walk where
  /-- Whether entries whose name starts with a dot are left out. -/
  skipsHidden : Bool
  /-- Whether rules for version control count only in a repository. -/
  needsRepository : Bool
  /-- Whether an entry right at the start of the walk is left out. -/
  leavesOut : String → Bool

namespace Walk

/-- The directories whose rules for version control count: those up to the top of the repository. -/
def upToRepository : List Rules → List Rules
  | [] => []
  | r :: rs => if r.repository then [r] else r :: upToRepository rs

/-- What the rules of an entry's directories, deepest first, say about it. Plain rules win over those for
    version control. -/
def verdict? (w : Walk) (rules : List Rules) (path : List String) (isDir : Bool) : Option Bool :=
  let verdictOf (rules : List Rules) (list : Rules → List Rule) : Option Bool :=
    rules.findSome? fun r => Rule.verdict? (list r) (path.drop r.depth) isDir
  let versioned :=
    if !w.needsRepository then rules
    else if rules.any (·.repository) then upToRepository rules
    else []
  ((verdictOf rules (·.plain)).or (verdictOf versioned (·.versioned))).or (verdictOf versioned (·.excluded))

/-- Whether an entry is left out. One that is hidden can be kept by a rule. -/
def skips (w : Walk) (rules : List Rules) (path : List String) (isDir : Bool) : Bool :=
  match w.verdict? rules path isDir with
  | some keeps => !keeps
  | none => w.skipsHidden && (path.getLast?.getD "").startsWith "."

mutual

/-- The entries found from an entry in the directory at `path`, each with the names that lead to it. -/
def entry (w : Walk) (rules : List Rules) (atStart : Bool) (path : List String) : Entry → List (List String × Entry)
  | .file n f =>
    if w.skips rules (path ++ [n]) false || (atStart && w.leavesOut n) then [] else [(path ++ [n], .file n f)]
  | .dir n entries =>
    let here := path ++ [n]
    if w.skips rules here true || (atStart && w.leavesOut n) then []
    else (here, .dir n []) :: w.entries (Rules.of here.length entries :: rules) false here entries

def entries (w : Walk) (rules : List Rules) (atStart : Bool) (path : List String) : List Entry → List (List String × Entry)
  | [] => []
  | e :: es => w.entry rules atStart path e ++ w.entries rules atStart path es

end

/-- The rules of the directories above a directory, deepest first. -/
def rulesAbove (top : Entry) (names : List String) : List Rules :=
  (List.range names.length).reverse.filterMap fun n =>
    match top.at? (names.take n) with
    | .ok (.dir _ entries) => some (Rules.of n entries)
    | _ => none

/-- The entries found from the directory that names lead to, which is not among them. -/
def run (w : Walk) (top : Entry) (names : List String) : Except AccessError (List (List String × Entry)) := do
  match ← top.at? names with
  | .file n f => return [(names, .file n f)]
  | .dir _ es => return w.entries (Rules.of names.length es :: rulesAbove top names) true names es

end Walk

end CallProbe.Files
