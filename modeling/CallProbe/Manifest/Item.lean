import CallProbe.Manifest.Data
import CallProbe.Text.Words

/-! # Entries

The entries of a table with everything that was written around them: blanks, comments and spellings. Dotted
keys make tables; the entries of such a table stand together when they are written, whatever stood between
them when they were read. -/

namespace CallProbe.Manifest

/-- Blanks and comments on either side of something. What was not read has the usual ones. -/
structure Margin where
  before : Option String := none
  after : Option String := none
deriving DecidableEq, Repr

/-- A key of an entry. -/
structure Key where
  name : String
  spelling : String
  /-- Around the whole dotted key that this key ends. -/
  outer : Margin := {}
  /-- Around this key within a dotted key. -/
  inner : Margin := {}
deriving DecidableEq, Repr

/-- A key that was not read. Its name must need no quotes. -/
def Key.new (name : String) : Key := { name, spelling := name }

/-- A value and how it is written. As the value of an entry it is written with what stands around it: from the
    equals sign to the end of the line, or to the next comma or brace. -/
structure Value where
  written : String
  data : Data
deriving Repr

/-- A value with a text on either side. -/
def Value.between (before after : String) (v : Value) : Value := { v with written := before ++ v.written ++ after }

/-- What is known of a table besides its entries. -/
structure Head where
  margin : Margin := {}
  /-- Whether the table has no header of its own, because only tables inside it have. -/
  implicit : Bool := false
  /-- Whether the table was made by dotted keys. -/
  dotted : Bool := false
  /-- Which header of the document is its own. -/
  position : Option Nat := none
deriving DecidableEq, Repr

/-- An entry of a table. -/
inductive Item where
  | value (key : Key) (value : Value)
  | table (key : Key) (head : Head) (entries : List Item)
  /-- Tables under one key. -/
  | tables (key : Key) (items : List Item)
deriving Repr

namespace Item

/-- The key of an entry. -/
def key : Item → Key
  | value k _ | table k _ _ | tables k _ => k

/-- The entry under a name. -/
def find? (name : String) (entries : List Item) : Option Item := entries.find? (·.key.name == name)

/-- Replaces the entry under the same name, or adds one. -/
def put (i : Item) (entries : List Item) : List Item :=
  if (find? i.key.name entries).isSome then
    entries.map fun e => if e.key.name == i.key.name then i else e
  else entries ++ [i]

mutual

/-- What an entry denotes. -/
def toData : Item → Data
  | value _ v => v.data
  | table _ _ entries => .table (entriesData entries)
  | tables _ items => .tables (itemsData items)

def entriesData : List Item → List (String × Data)
  | [] => []
  | i :: is => (i.key.name, toData i) :: entriesData is

def itemsData : List Item → List Data
  | [] => []
  | i :: is => toData i :: itemsData is

end

end Item

/-! ### Tables -/

/-- The entries of a table, with what is known of it. -/
abbrev Body := Head × List Item

/-- Edits the table that a path leads to from a table. Tables that are missing on the way are made; one that
    is reached through dotted keys must have been made by them. -/
def editAt (dotted : Bool) (edit : Body → Option Body) : List Key → Body → Option Body
  | [], body => edit body
  | k :: path, (head, entries) =>
    match Item.find? k.name entries with
    | none => do
      let (h, inner) ← editAt dotted edit path ({ implicit := true, dotted := dotted }, [])
      return (head, entries ++ [.table k h inner])
    | some (.value _ _) => none
    | some (.table key h inner) =>
      if dotted && !h.implicit then none
      else do
        let (h, inner) ← editAt dotted edit path (h, inner)
        return (head, Item.put (.table key h inner) entries)
    | some (.tables key items) =>
      match items.getLast? with
      | some (.table tk h inner) => do
        let (h, inner) ← editAt dotted edit path (h, inner)
        return (head, Item.put (.tables key (items.dropLast ++ [.table tk h inner])) entries)
      | _ => none

/-- Adds a value under a dotted key to a table. A key that is taken is refused. -/
def addEntry (keys : List Key) (v : Value) (body : Body) : Option Body := do
  let key ← keys.getLast?
  let path := keys.dropLast
  let add : Body → Option Body := fun (h, es) =>
    if h.dotted == path.isEmpty || (Item.find? key.name es).isSome then none
    else some (h, es ++ [.value key v])
  editAt true add path body

/-! ### Text -/

mutual

/-- The values that a table writes itself, under dotted keys where tables were made by them. -/
def Item.values (path : List Key) : Item → List (List Key × Value)
  | .value key v => [(path ++ [key], v)]
  | .table key head entries => if head.dotted then valuesOf (path ++ [key]) entries else []
  | .tables _ _ => []

def valuesOf (path : List Key) : List Item → List (List Key × Value)
  | [] => []
  | i :: is => i.values path ++ valuesOf path is

end

/-- A dotted key; `usual` stands on either side if nothing was read there. -/
def keyText (usual : String × String) (path : List Key) : String :=
  let outer := (path.getLast?.map (·.outer)).getD {}
  let inner (i : Nat) (k : Key) : String :=
    let isLast := i + 1 == path.length
    (if i == 0 then outer.before.getD usual.1 else "." ++ k.inner.before.getD "") ++ k.spelling ++
      (if isLast then outer.after.getD usual.2 else k.inner.after.getD "")
  String.join (path.zipIdx.map fun (k, i) => inner i k)

/-- An entry as it is written: a dotted key and its value. -/
def entryText (path : List Key) (v : Value) : String := keyText ("", " ") path ++ "=" ++ v.written

/-- Entries between braces as a value. -/
def Value.ofItems (entries : List Item) : Value where
  written := "\x7b" ++ Text.joinWith "," ((valuesOf [] entries).map fun (path, v) => entryText path v) ++ "\x7d"
  data := .table (Item.entriesData entries)

end CallProbe.Manifest
