import CallProbe.Probe.Probed

/-! # Instrumenting a file

Every marked function of a file is probed as its markers say, and every unmarked one that was selected as
the plan of the selection says. The rest of the file stays as it is. -/

namespace CallProbe.Probe

open Source

/-! ### Names -/

/-- The name that the methods of a type are under: the last name of its path, or `_`. -/
def typeName : Tree → String
  | .node .pathType [.node .path [_, .node .list segments]] => lastName segments
  | .node .pathType [.node .qualifiedPath [_, _, _, _, _, _, .node .list segments]] => lastName segments
  | _ => "_"
where
  lastName (segments : List Tree) : String :=
    match segments.getLast? with
    | some (.node .segment (n :: _)) => n.text
    | _ => "_"

/-- The name of a function in the type or trait `scope`. -/
def qualified (scope : Option String) (name : String) : String :=
  match scope with
  | some s => s ++ "::" ++ name
  | none => name

/-! ### What a function is asked for -/

/-- What decides about the functions of a file: which bare markers are in scope, the names that were
    selected, and the plan for these. -/
structure Request where
  imports : Imports
  targets : List String
  plan : Option Plan

/-- One probe that a function is asked for: by a marker on it, or by a selection. -/
inductive Ask where
  | marked (marker : Marker) (attr : Tree)
  | selected (plan : Plan)

/-- The markers on a function, the outermost first. -/
def Request.markers (r : Request) (attrs : List Tree) : List Ask :=
  attrs.filterMap fun a => (r.imports.marker? a).map (Ask.marked · a)

/-- The probes that a function is asked for. Markers win over a selection. -/
def Request.asks (r : Request) (name : String) (f : Function) : List Ask :=
  match r.markers f.attrs with
  | [] => if r.targets.contains name then (r.plan.map Ask.selected).toList else []
  | asks => asks

/-- Probes a function as one ask says. -/
def Ask.apply (name : String) (f : Function) : Ask → Except Failure Probed
  | marked m attr => do
    let plan ← (Plan.ofAttr m attr).mapError fun e => .error (.configuration e)
    probe f name plan (some attr)
  | selected plan => probe f name plan none

/-- Probes a function as one ask after the other says. -/
def Ask.applyAll (name : String) (f : Function) : List Ask → Except Failure (List Probed)
  | [] => .ok []
  | a :: as => do
    let r ← a.apply name f
    return r :: (← applyAll name r.item as)

/-! ### Items -/

/-- The places that take no constant beside a function. -/
inductive ClosedPlace where
  | traitImpl
  | traitBody
deriving DecidableEq, Repr

/-- A constant that was asked for and could not be placed. -/
structure Skipped where
  constant : String
  place : ClosedPlace
deriving DecidableEq, Repr

/-- What is said about a skipped constant. -/
def Skipped.message (s : Skipped) : String :=
  match s.place with
  | .traitImpl => "rewrite_details cannot be added to a trait impl; skipped"
  | .traitBody => "rewrite_details cannot be added to a trait; skipped"

/-- What was done to a file so far, in its order. -/
structure Progress where
  probed : List Probed := []
  skipped : List Skipped := []

/-- A pass over a file, which the first failure ends. -/
abbrev Pass := StateT Progress (Except Failure)

/-- Probes a function of a file, if it is asked for. -/
def Request.process (r : Request) (name : String) (f : Function) : Pass (Option (Function × List Tree)) := do
  match ← Ask.applyAll name f (r.asks name f) with
  | [] => return none
  | done =>
    modify fun p => { p with probed := p.probed ++ done }
    return some ((done.getLast?.map (·.item)).getD f, done.filterMap (·.details))

/-- The function that an item or a member is, from its attributes, visibility, signature and body. -/
def Function.ofParts (attrs vis sig body : Tree) : Function :=
  match body with
  | .node .block _ =>
    let (block, inner) := splitBody body
    ⟨attrs.attrList ++ inner, vis, sig, some block⟩
  | _ => ⟨attrs.attrList, vis, sig, none⟩

/-- The name that a constant declares. -/
def constName : Tree → String
  | .node .constItem [_, _, _, n, _, _, _, _, _] => n.text
  | _ => ""

/-- A constant as a member of an implementation. -/
def memberConst : Tree → Tree
  | .node .constItem [attrs, vis, c, n, colon, ty, eq, value, semi] =>
    .node .assocConst [attrs, vis, .absent, c, n, colon, ty, eq, value, semi]
  | t => t

/-- Notes constants that have no place. -/
def skip (place : ClosedPlace) (consts : List Tree) : Pass Unit :=
  modify fun p => { p with skipped := p.skipped ++ consts.map (⟨constName ·, place⟩) }

/-- A member of an implementation, with the constants to put after it. -/
def Request.implMember (r : Request) (scope : String) (ofTrait : Bool) : Tree → Pass (List Tree)
  | .node .methodItem [attrs, vis, dflt, sig, body] => do
    let f := Function.ofParts attrs vis sig body
    match ← r.process (qualified scope f.name) f with
    | none => return [.node .methodItem [attrs, vis, dflt, sig, body]]
    | some (g, consts) =>
      let member : Tree := .node .methodItem [.node .attrs g.attrs, vis, dflt, g.sig, g.body.getD body]
      if ofTrait then
        skip .traitImpl consts
        return [member]
      else return member :: consts.map memberConst
  | t => return [t]

/-- A member of a trait. -/
def Request.traitMember (r : Request) (scope : String) : Tree → Pass Tree
  | .node .traitFn [attrs, sig, body] => do
    let f := Function.ofParts attrs .absent sig body
    match ← r.process (qualified scope f.name) f with
    | none => return .node .traitFn [attrs, sig, body]
    | some (g, consts) =>
      skip .traitBody consts
      return .node .traitFn [.node .attrs g.attrs, g.sig, g.body.getD body]
  | t => return t

mutual

/-- An item, with the constants to put after it. Bodies of functions are not searched. -/
def Request.item (r : Request) : Tree → Pass (List Tree)
  | .node .fnItem [attrs, vis, sig, body] => do
    let f := Function.ofParts attrs vis sig body
    match ← r.process f.name f with
    | none => return [.node .fnItem [attrs, vis, sig, body]]
    | some (g, consts) => return .node .fnItem [.node .attrs g.attrs, vis, g.sig, g.body.getD body] :: consts
  | .node .modItem [attrs, vis, u, m, n, .group d o [inner, .node .items items] c] => do
    return [.node .modItem [attrs, vis, u, m, n, .group d o [inner, .node .items (← r.items items)] c]]
  | .node .implItem [attrs, dflt, u, i, gs, of, self, w, .group d o [inner, .node .items members] c] => do
    let members ← members.mapM (r.implMember (typeName self) of.isPresent)
    return [.node .implItem [attrs, dflt, u, i, gs, of, self, w, .group d o [inner, .node .items members.flatten] c]]
  | .node .traitItem [attrs, vis, u, a, t, n, gs, colon, bs, w, .group d o [inner, .node .items members] c] => do
    let members ← members.mapM (r.traitMember n.text)
    return [.node .traitItem [attrs, vis, u, a, t, n, gs, colon, bs, w, .group d o [inner, .node .items members] c]]
  | t => return [t]

/-- Items in their order. -/
def Request.items (r : Request) : List Tree → Pass (List Tree)
  | [] => return []
  | t :: ts => do
    let here ← r.item t
    return here ++ (← r.items ts)

end

/-! ### Files -/

/-- A file that was gone through. -/
structure Instrumented where
  source : String
  probed : List Probed
  skipped : List Skipped

/-- A list without elements that equal the one before them. -/
def dropRepeats : List String → List String
  | a :: b :: rest => if a = b then dropRepeats (b :: rest) else a :: dropRepeats (b :: rest)
  | rest => rest

/-- The line at the top of a file in which functions were probed. -/
def header (probed : List Probed) : String :=
  if probed.isEmpty then ""
  else "// @generated by shallow: call sites rewritten in " ++
    Text.joinWith ", " (dropRepeats (probed.map (·.function))) ++ "\n"

/-- The items of a file, gone through. -/
def instrumentTree (targets : List String) (plan : Option Plan) (file : Tree) : Except Failure (Tree × Progress) :=
  match file with
  | .node .file [attrs, .node .items items] => do
    let (items, progress) ← (Request.items ⟨Imports.ofFile file, targets, plan⟩ items).run {}
    return (.node .file [attrs, .node .items items], progress)
  | t => return (t, {})

/-- The tree of a file. -/
def fileOfText (path source : String) : Except Error Tree :=
  match (tokenize source).map Grammar.parseFile with
  | some (.ok file) => .ok file
  | _ => .error (.unparsable path)

/-- The text of a tree of a file. -/
def textOfFile (file : Tree) : Except Failure String := (Layout.textOfFile file).mapError .unprintable

/-- Probes every marked function of the text of a file, and every unmarked one whose name is in `targets`
    if there is a plan for them. -/
def instrument (path source : String) (targets : List String) (plan : Option Plan) : Except Failure Instrumented := do
  let file ← (fileOfText path source).mapError Failure.error
  let (file, progress) ← instrumentTree targets plan file
  return { source := header progress.probed ++ (← textOfFile file),
           probed := progress.probed, skipped := progress.skipped }

/-! ### Logging -/

/-- The statement that sets up a place for reports to go to. -/
def installSubscriber : Tree :=
  .node .exprStmt [Make.call (Make.rootPath ["shallow_runtime", "install_default_subscriber"]) [], Make.symbol ";"]

/-- A block with a statement put first. -/
def withFirst (s : Tree) : Tree → Tree
  | .node .block [.group d o [attrs, .node .stmts stmts] c] =>
    .node .block [.group d o [attrs, .node .stmts (s :: stmts)] c]
  | t => t

mutual

/-- A tree with the statement at the start of every function item called `main`, at any depth outside the
    bodies of function items. -/
def withSubscriber : Tree → Tree
  | .node .fnItem [attrs, vis, sig, body] =>
    .node .fnItem [attrs, vis, sig,
      if (Function.ofParts attrs vis sig body).name = "main" then withFirst installSubscriber body else body]
  | .node k cs => .node k (withSubscriberAll cs)
  | .group d o content c => .group d o (withSubscriberAll content) c
  | t => t

def withSubscriberAll : List Tree → List Tree
  | [] => []
  | t :: ts => withSubscriber t :: withSubscriberAll ts

end

/-- Makes `main` set up a place for reports to go to. -/
def injectSubscriber (path source : String) : Except Failure String := do
  let file ← (fileOfText path source).mapError Failure.error
  textOfFile (withSubscriber file)

end CallProbe.Probe
