import CallProbe.Probe.Prologue

/-! # Probing a function

A function is stripped of its marker, transformed as its plan says, and read back from the tokens that the
compiler will see. A step that fails stops the probe, so no function is left half probed. -/

namespace CallProbe.Probe

open Source

/-- What a probe produced. -/
structure Probed where
  function : String
  sourceBefore : String
  sourceAfter : String
  item : Function
  /-- The constant with the sources, if it was asked for. -/
  details : Option Tree
  callsWrapped : Nat
  profiled : Bool

/-- The transforms of a plan, one after the other. Returns the number of calls wrapped. -/
def Plan.transform (plan : Plan) (name : String) (f : Function) : Except Halt (Function × Nat) :=
  match plan with
  | .wrapCalls options => options.apply name f
  | .profile options => do
    let (f, count) ← options.calls.apply name f
    let (f, more) ← options.apply name f
    return (f, count + more)

/-- The constant with the sources before and after a probe. -/
def detailsConst (vis : Tree) (name function sourceBefore sourceAfter : String) : Tree :=
  let path := Make.path true ["shallow_runtime", "RewriteDetails"]
  let field (n v : String) : Tree := .node .fieldValue [.noAttrs, Make.word n, Make.symbol ":", Make.string v]
  let value : Tree := .node .structExpr [.noAttrs, path, .group .brace Pos.none
    [.list (Make.terminated [field "function" function, field "original_source" sourceBefore,
      field "new_source" sourceAfter]), .absent, .absent] Pos.none]
  .node .constItem [.node .attrs [Function.listAttr "allow" "dead_code"], vis, Make.word "const", Make.word name,
    Make.symbol ":", .node .pathType [path], Make.symbol "=", value, Make.symbol ";"]

/-- Whether the tokens of a function can be read back. -/
def Function.readsBack (f : Function) : Bool := (Function.parse f.toTokens).isOk

/-- Transforms a function without its marker, with the given body, as a plan says, and reads it back. `sourceBefore` is
    the text of the function before. -/
def rebuild (f : Function) (name : String) (plan : Plan) (body : Tree) (sourceBefore : String) :
    Except Failure Probed := do
  let failed (stage : Stage) (cause : Cause) : Failure := .error (.probeFailed name stage cause)
  let (f, count) ← (plan.transform name f).mapError fun e => match e with
    | .refused cause => failed .transforming cause
    | .broken fault => .broken fault
    | .unprintable part => .unprintable part
  if !f.readsBack then .error (failed .recompiling .unreadable)
  let f := f.grouped
  let sourceAfter ← (f.render (f.body.getD body)).mapError Failure.unprintable
  let details := plan.calls.details.map fun n => detailsConst f.vis n name sourceBefore sourceAfter
  let profiled := match plan with
    | .profile _ => true
    | .wrapCalls _ => false
  return { function := name, sourceBefore, sourceAfter, item := f, details, callsWrapped := count, profiled }

/-- Probes a function, from which `strip` is removed if it is given. -/
def probe (f : Function) (name : String) (plan : Plan) (strip : Option Tree) : Except Failure Probed :=
  match f.body with
  | none => .error (.error (.sourceUnavailable name))
  | some body => do
    let sourceBefore ← (f.render body).mapError Failure.unprintable
    match strip with
    | none => rebuild f name plan body sourceBefore
    | some attr => match f.strip? attr with
      | some f => rebuild f name plan body sourceBefore
      | none => .error (.error (.probeFailed name .stripping (.markerNotFound (Marker.of? attr))))

/-- The tokens that take the place of the function. -/
def Probed.toTokens (r : Probed) : List TokenTree :=
  r.item.toTokens ++ (r.details.map Tree.toTokens).getD []

/-- An error for the compiler, with the text it shows. -/
def compileError (message : String) : List TokenTree :=
  (Make.path true ["core", "compile_error"]).toTokens ++
    [.punct '!' false Pos.none, .group .brace Pos.none [.literal (Text.quote message) Pos.none] Pos.none]

/-- What the compiler is shown for an error: for one in the options the fault alone. -/
def Error.shown : Error → String
  | .configuration e => e.fault.message
  | e => e.message

/-- Expands a marker on a function. -/
def expand (marker : Marker) (args item : List TokenTree) : Except Failure (List TokenTree) := do
  let plan ← (Plan.parse marker args).mapError fun e => .error (.configuration e)
  let f ← (Function.parse item).mapError fun _ =>
    .error (.probeFailed ("#[" ++ marker.name ++ "] item") .parsing .unreadable)
  return (← probe f f.name plan none).toTokens

/-- Expands a marker on a function; an error is shown next to the function as it was. -/
def expandMarker (marker : Marker) (args item : List TokenTree) : Except Failure (List TokenTree) :=
  match expand marker args item with
  | .error (.error e) => .ok (compileError e.shown ++ item)
  | r => r

end CallProbe.Probe
