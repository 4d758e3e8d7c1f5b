import CallProbe.Text.Words

/-! # Paths

Paths are texts, and mean the sequence of their components: repeated slashes, a slash at the end and dots
inside say nothing. -/

namespace CallProbe.Files

/-- A component of a path. -/
inductive Component where
  | root
  | here
  | up
  | name (text : String)
deriving DecidableEq, Repr

namespace Component

/-- The place of a kind of component in the order of paths. -/
def rank : Component → Nat
  | root => 0
  | here => 1
  | up => 2
  | name _ => 3

/-- The order of components: names come last, by their characters. -/
def lt (a b : Component) : Bool :=
  match a, b with
  | name s, name t => decide (s < t)
  | _, _ => a.rank < b.rank

end Component

namespace Path

/-- The pieces of a path between slashes. -/
def pieces (p : String) : List String := Text.splitOnChar '/' p

/-- The component that a piece after the first one is. -/
def componentOf? (piece : String) : Option Component :=
  if piece = "" ∨ piece = "." then none
  else if piece = ".." then some .up
  else some (.name piece)

/-- The components of a path. A dot counts only at the start. -/
def components (p : String) : List Component :=
  match pieces p with
  | "" :: _ :: _ => .root :: (pieces p).filterMap componentOf?
  | "." :: rest => .here :: rest.filterMap componentOf?
  | ps => ps.filterMap componentOf?

/-- Whether a path starts at the root. -/
def isAbsolute (p : String) : Bool := p.startsWith "/"

/-- Whether the components of `suffix` are the last ones of `p`. -/
def endsWith (p suffix : String) : Bool := (components suffix).isSuffixOf (components p)

/-- The name at the end of components. -/
def nameOf? (cs : List Component) : Option String :=
  match cs.getLast? with
  | some (.name n) => some n
  | _ => none

/-- The name at the end of a path. -/
def fileName? (p : String) : Option String := nameOf? (components p)

/-- The name of the directory that a path is in. -/
def parentName? (p : String) : Option String :=
  match (components p).getLast? with
  | none | some .root => none
  | some _ => nameOf? (components p).dropLast

/-- A name cut at its last dot, unless it has none or only one at the start. -/
def cutName (n : String) : String × Option String :=
  let cs := n.toList
  let after := (cs.reverse.takeWhile (· != '.')).reverse
  let before := cs.take (cs.length - after.length - 1)
  if after.length = cs.length ∨ before.isEmpty then (n, none)
  else (String.ofList before, some (String.ofList after))

/-- The name at the end of a path without its extension. -/
def stem? (p : String) : Option String := (fileName? p).map fun n => (cutName n).1

/-- The extension of the name at the end of a path. -/
def extension? (p : String) : Option String := (fileName? p).bind fun n => (cutName n).2

/-- A path taken from another one. -/
def join (base p : String) : String :=
  if isAbsolute p ∨ base = "" then p
  else if base.endsWith "/" then base ++ p
  else base ++ "/" ++ p

/-- The order of paths: component by component. -/
def lt (p q : String) : Bool := ltComponents (components p) (components q)
where
  ltComponents : List Component → List Component → Bool
    | [], [] => false
    | [], _ :: _ => true
    | _ :: _, [] => false
    | a :: as, b :: bs => a.lt b || (!b.lt a && ltComponents as bs)

end Path

end CallProbe.Files
