import CallProbe.Call.Target

/-! # Markers

The attributes that ask for a probe, and the imports that decide whether a bare `#[profile]` is one. -/

namespace CallProbe.Probe

open Source Call

/-- The kinds of markers. -/
inductive Marker where
  | wrapCalls
  | profile
deriving DecidableEq, Repr, Inhabited

/-- The name of a marker. -/
def Marker.name : Marker → String
  | wrapCalls => "wrap_calls"
  | profile => "profile"

/-- The crates that export markers. -/
def markerCrates : List String := ["shallow_runtime", "shallow_macros", "shallow"]

/-- The inside of an attribute. -/
def attrMeta : Tree → Tree
  | .node .attr [_, _, .group _ _ [m] _] => m
  | _ => .absent

/-- The path of an attribute. -/
def attrPath (attr : Tree) : Tree :=
  match attrMeta attr with
  | .node .metaPath [p] | .node .metaList [p, _] | .node .metaNameValue [p, _, _] => p
  | _ => .absent

/-- Whether an attribute applies to what it stands in. -/
def isInnerAttr : Tree → Bool
  | .node .attr [_, bang, _] => bang.isPresent
  | _ => false

/-- The marker of the given last name. -/
def Marker.ofName? (name : String) : Option Marker :=
  if name = "wrap_calls" then some wrapCalls else if name = "profile" then some profile else none

/-- The marker that an attribute is by its path alone: bare, or under one of the crates. -/
def Marker.of? (attr : Tree) : Option Marker :=
  match Target.pathNames (attrPath attr) with
  | [name] => ofName? name
  | [crate, name] => if markerCrates.contains crate then ofName? name else none
  | _ => none

/-- Whether a use tree brings in `profile` from one of the crates, which `inCrate` says it is under. -/
def importsProfile (inCrate : Bool) : Tree → Bool
  | .node .usePath [n, _, t] => !inCrate && markerCrates.contains n.text && importsProfile true t
  | .node .useName [n] => inCrate && n.text == "profile"
  | .node .useGlob _ => inCrate
  | .node .useGroup [.group _ _ [.node .list ts] _] => anyImportsProfile inCrate ts
  | _ => false
where
  anyImportsProfile (inCrate : Bool) : List Tree → Bool
    | [] => false
    | t :: ts => importsProfile inCrate t || anyImportsProfile inCrate ts

mutual

/-- Whether a tree holds, at any depth, a `use` that brings in `profile`. Arguments of macros are not
    looked at. -/
def bringsInProfile : Tree → Bool
  | .node .useItem [_, _, _, _, t, _] => importsProfile false t
  | .node _ cs => anyBringsInProfile cs
  | .group _ _ content _ => anyBringsInProfile content
  | _ => false

def anyBringsInProfile : List Tree → Bool
  | [] => false
  | t :: ts => bringsInProfile t || anyBringsInProfile ts

end

/-- Which bare markers a file has in scope. -/
structure Imports where
  profile : Bool
deriving DecidableEq, Repr

/-- The imports of a file. -/
def Imports.ofFile (file : Tree) : Imports := ⟨bringsInProfile file⟩

/-- The marker that an attribute is in a file: a bare `#[profile]` needs an import. -/
def Imports.marker? (imports : Imports) (attr : Tree) : Option Marker :=
  match Marker.of? attr with
  | some .profile =>
    if (Target.pathNames (attrPath attr)).length = 1 ∧ !imports.profile then none else some .profile
  | m => m

end CallProbe.Probe
