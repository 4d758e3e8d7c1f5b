import CallProbe.Time.Seconds

/-! # Flags

Which flags a command takes, and how arguments are read by such a list. -/

namespace CallProbe.CommandLine

open Time

/-- What the value of a flag is. -/
inductive ValueKind where
  | text
  /-- A path, which has at least one character. -/
  | path
  /-- A number of seconds. -/
  | seconds
deriving DecidableEq, Repr

/-- Whether a text is a value of a kind. -/
def ValueKind.admits : ValueKind → String → Bool
  | text, _ => true
  | path, s => s != ""
  | seconds, s => (Float64.parse s).isSome

/-- The value of a flag: the word that stands for it in help texts, its kind, and the one taken if the flag is
    not given. -/
structure ValueSpec where
  word : String
  kind : ValueKind := .text
  usual : Option String := none
deriving DecidableEq, Repr

/-- A flag of a command. -/
structure Flag where
  name : String
  letter : Option Char := none
  value : Option ValueSpec := none
  /-- Whether it may be given more than once. -/
  repeats : Bool := false
  about : String
deriving DecidableEq, Repr

/-- An argument that is no flag. -/
structure Positional where
  word : String
  kind : ValueKind := .text
  required : Bool := false
  many : Bool := false
  /-- Whether it may stand only after two dashes. -/
  last : Bool := false
  about : String
deriving DecidableEq, Repr

/-- A command: its name, what it is for, and its arguments. -/
structure CommandSpec where
  name : String
  about : String
  positional : Option Positional := none
  flags : List Flag := []
deriving DecidableEq, Repr

/-! ### What was given -/

/-- Why arguments are not read on. -/
inductive Stop where
  /-- They do not fit the command. -/
  | usage
  /-- A help text is asked for. -/
  | help
deriving DecidableEq, Repr

/-- The arguments of a command: flags with their values, and the others. -/
structure Given where
  flags : List (String × String) := []
  others : List String := []
deriving DecidableEq, Repr

namespace Given

/-- Whether a flag was given. -/
def has (g : Given) (name : String) : Bool := g.flags.any (·.1 == name)

/-- The values of a flag, in order. -/
def values (g : Given) (name : String) : List String := (g.flags.filter (·.1 == name)).map (·.2)

/-- The value of a flag. -/
def value? (g : Given) (name : String) : Option String := (g.values name).head?

/-- Takes a flag. -/
def addFlag (g : Given) (f : Flag) (value : String) : Except Stop Given :=
  if !f.repeats && g.has f.name then .error .usage
  else if (f.value.map (·.kind.admits value)).getD true then .ok { g with flags := g.flags ++ [(f.name, value)] }
  else .error .usage

/-- Takes an argument that is no flag. -/
def addOther (g : Given) (c : CommandSpec) (afterDashes : Bool) (a : String) : Except Stop Given :=
  match c.positional with
  | none => .error .usage
  | some p =>
    if (!p.many && !g.others.isEmpty) || (p.last && !afterDashes) || !p.kind.admits a then .error .usage
    else .ok { g with others := g.others ++ [a] }

end Given

/-! ### Reading -/

/-- What an argument is. -/
inductive Reading where
  | other
  /-- A flag with all that belongs to it. -/
  | whole (flag : Flag) (value : String)
  /-- A flag whose value is the next argument. -/
  | open_ (flag : Flag)
  | stop (why : Stop)

/-- What a flag is with the value that is attached to it. -/
def Flag.reading (f : Flag) (attached : Option String) : Reading :=
  match f.value, attached with
  | some _, some v => .whole f v
  | some _, none => .open_ f
  | none, none => .whole f ""
  | none, some _ => .stop .usage

/-- Cuts a text at its first equals sign. -/
def cutAtEquals (cs : List Char) : String × Option String :=
  let name := String.ofList (cs.takeWhile (· != '='))
  match cs.dropWhile (· != '=') with
  | [] => (name, none)
  | _ :: value => (name, some (String.ofList value))

/-- What an argument of a command is. -/
def CommandSpec.read (c : CommandSpec) (a : String) : Reading :=
  match a.toList with
  | '-' :: '-' :: cs =>
    let (name, attached) := cutAtEquals cs
    if name = "help" then .stop (if attached.isNone then .help else .usage)
    else match c.flags.find? (·.name == name) with
      | some f => f.reading attached
      | none => .stop .usage
  | '-' :: letter :: cs =>
    if letter = 'h' then .stop .help
    else match c.flags.find? (·.letter == some letter) with
      | some f => f.reading (match cs with
        | [] => none
        | '=' :: v => some (String.ofList v)
        | v => some (String.ofList v))
      | none => .stop .usage
  | _ => .other

/-- Whether an argument cannot be the value of the flag before it. -/
def isFlagLike (a : String) : Bool := a.startsWith "-" && a != "-"

/-- Reads the arguments of a command. -/
def CommandSpec.readAll (c : CommandSpec) : List String → Given → Except Stop Given
  | [], g => .ok g
  | a :: rest, g =>
    if a = "--" then rest.foldlM (fun g a => g.addOther c true a) g
    else match c.read a with
      | .other => do c.readAll rest (← g.addOther c false a)
      | .whole f v => do c.readAll rest (← g.addFlag f v)
      | .open_ f =>
        match rest with
        | [] => .error .usage
        | v :: rest => if isFlagLike v then .error .usage else do c.readAll rest (← g.addFlag f v)
      | .stop why => .error why

/-- The arguments of a command, of which none that it requires may be missing. -/
def CommandSpec.parse (c : CommandSpec) (args : List String) : Except Stop Given := do
  let g ← c.readAll args {}
  if (c.positional.any (·.required)) && g.others.isEmpty then .error .usage else .ok g

end CallProbe.CommandLine
