import CallProbe.Manifest.Reader

/-! # Documents

A manifest with everything that was written in it: the spelling of keys and values, blanks, comments, and the
order of sections. What is not edited is written back as it was read, except that the entries of a table that
dotted keys made stand together, and that lines end with a line feed alone. -/

namespace CallProbe.Manifest

open Reader

/-! ### Reading -/

/-- A document that is being read: the finished tables, and the one whose entries are read. -/
structure Progress where
  root : List Item := []
  /-- How many headers were read. -/
  headers : Nat := 0
  path : List Key := []
  inArray : Bool := false
  head : Head := {}
  entries : List Item := []
  /-- Blanks and comments since the last entry. -/
  pending : String := ""

namespace Progress

/-- Puts the table that was read among the finished ones. -/
def finish (p : Progress) : Option Progress :=
  match p.path.getLast? with
  | none => some { p with root := p.entries, entries := [], head := {} }
  | some key =>
    let add : Body → Option Body := fun (h, es) =>
      if p.inArray then
        match Item.find? key.name es with
        | none => some (h, es ++ [.tables key [.table key p.head p.entries]])
        | some (.tables k items) => some (h, Item.put (.tables k (items ++ [.table k p.head p.entries])) es)
        | some _ => none
      else some (h, Item.put (.table key p.head p.entries) es)
    do
      let (_, root) ← editAt false add p.path.dropLast ({}, p.root)
      return { p with root, entries := [], head := {}, path := [], inArray := false }

/-- Takes a table without a header of its own out of the finished ones, to be given one. -/
def reopen (p : Progress) (path : List Key) : Option Progress :=
  match path.getLast? with
  | none => none
  | some key =>
    let taken := p.root
    let found := lookupAt path.dropLast taken key.name
    match found with
    | none => do
      let (_, root) ← editAt false some path.dropLast ({}, p.root)
      return { p with root }
    | some (.table _ h inner) =>
      if h.implicit && !h.dotted then do
        let drop : Body → Option Body := fun (h, es) => some (h, es.filter (·.key.name != key.name))
        let (_, root) ← editAt false drop path.dropLast ({}, p.root)
        return { p with root, entries := inner }
      else none
    | some _ => none
where
  /-- The entry that a path and a name lead to. -/
  lookupAt : List Key → List Item → String → Option Item
    | [], entries, name => Item.find? name entries
    | k :: path, entries, name =>
      match Item.find? k.name entries with
      | some (.table _ _ inner) => lookupAt path inner name
      | some (.tables _ items) =>
        match items.getLast? with
        | some (.table _ _ inner) => lookupAt path inner name
        | _ => none
      | _ => none

/-- Checks that a path leads to tables under one key, or to nothing. -/
def checkArray (p : Progress) (path : List Key) : Option Progress :=
  match path.getLast? with
  | none => none
  | some key => do
    let check : Body → Option Body := fun (h, es) =>
      match Item.find? key.name es with
      | none => some (h, es ++ [.tables key []])
      | some (.tables _ _) => some (h, es)
      | some _ => none
    let (_, root) ← editAt false check path.dropLast ({}, p.root)
    return { p with root }

/-- A header. -/
def onHeader (p : Progress) (inArray : Bool) (path : List Key) (after : String) : Option Progress := do
  let p ← p.finish
  let p ← if inArray then p.checkArray path else p.reopen path
  return { p with
    headers := p.headers + 1, path, inArray, pending := "",
    head := { margin := ⟨some p.pending, some after⟩, position := some (p.headers + 1) } }

/-- An entry. Its key may be dotted, which makes tables. -/
def onEntry (p : Progress) (keys : List Key) (v : Value) : Option Progress := do
  let (head, entries) ← addEntry (startWith p.pending keys) v (p.head, p.entries)
  return { p with head, entries, pending := "" }

end Progress

/-- A header: its keys, whether it starts one of several tables, and what follows on the line. -/
def header : Reader (Bool × List Key × String) := do
  exactly "["
  let inArray ← accept "["
  let keys ← dottedKey
  exactly (if inArray then "]]" else "]")
  return (inArray, keys, ← restOfLine)

/-- An entry on a line of its own. -/
def entry : Reader (List Key × Value) := do
  let keys ← dottedKey
  exactly "="
  let (_, before) ← withText gap
  let v ← value
  return (keys, v.between before (← restOfLine))

/-- Reads what stands next, until nothing is left. Every turn takes a character. -/
def readFrom : Nat → Progress → Reader Progress
  | 0, _ => refuse
  | fuel + 1, p => do
    let (_, blanks) ← withText gap
    let p := { p with pending := p.pending ++ blanks }
    match ← peek with
    | none => return p
    | some c =>
      if c = '#' then
        let (_, text) ← withText (do
          comment
          if !(← get).isEmpty then lineEnd)
        readFrom fuel { p with pending := p.pending ++ withoutReturns text }
      else if c = '\n' || c = '\r' then
        let (_, text) ← withText lineEnd
        readFrom fuel { p with pending := p.pending ++ withoutReturns text }
      else if c = '[' then
        let (inArray, path, after) ← header
        match p.onHeader inArray path after with
        | some p => readFrom fuel p
        | none => refuse
      else
        let (keys, v) ← entry
        match p.onEntry keys v with
        | some p => readFrom fuel p
        | none => refuse

/-- A manifest as it was written. -/
structure Document where
  entries : List Item
  /-- What follows the last entry. -/
  trailing : String
deriving Repr

/-- Reads a document. A byte order mark in front is dropped. -/
def Document.parse (s : String) : Option Document := do
  let cs := match s.toList with
    | c :: cs => if c.toNat = 0xFEFF then cs else c :: cs
    | [] => []
  let (p, _) ← readFrom (cs.length + 1) {} cs
  let done ← p.finish
  return ⟨done.root, p.pending⟩

/-- What a document denotes. -/
def Document.toData (d : Document) : Data := .table (Item.entriesData d.entries)

end CallProbe.Manifest
