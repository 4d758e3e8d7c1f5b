import CallProbe.Probe.Wrap

/-! # The prologue of a profiled function

A profiled function starts with a static that describes its profile and a guard for this invocation, which
reports when it is dropped. The body of an async function may be left while other invocations run on the
same thread, so it is moved into a future that enters the invocation on every poll. -/

namespace CallProbe.Probe

open Source Call Time

/-- The name of the static and of the guard. -/
def profileStatic : String := "__SHALLOW_PROFILE"
def profileGuard : String := "__shallow_profile"
def returnName : String := "__shallow_return"

/-- A path of the runtime's profiler. -/
def profilerPath (names : List String) : List String := ["shallow_runtime", "profile"] ++ names

/-- A callback as an optional function. -/
def callbackExpr : Option Tree → Except Fault Tree
  | none => .ok (Make.rootPath ["core", "option", "Option", "None"])
  | some path => do
    let type := Make.rootType (profilerPath ["Callback"])
    let some_ := Make.rootPath ["core", "option", "Option", "Some"]
    if isCallee path then
      return Make.call some_ [.node .castExpr [.noAttrs, .node .pathExpr [.noAttrs, path], Make.word "as", type]]
    else return Make.call some_ (← readArguments (path.toTokens ++ (Make.word "as").toTokens ++ type.toTokens))

/-- The static that describes the profile of a function. -/
def profileItem (options : ProfileOptions) (name : String) : Except Fault Tree := do
  let limit := options.timeLimit
  let duration := Make.call (Make.rootPath ["core", "time", "Duration", "new"])
    (Make.separated [Make.literal (toString limit.secs ++ "u64"), Make.literal (toString limit.subsec ++ "u32")])
  let args := [Make.string name, duration, ← callbackExpr options.below, ← callbackExpr options.above]
  return Make.staticItem profileStatic (Make.rootType (profilerPath ["Profile"]))
    (Make.call (Make.rootPath (profilerPath ["Profile", "new"])) (Make.terminated args))

/-- The binding of the guard, made by the given function. -/
def guardStmt (maker : String) : Tree :=
  Make.letStmt (Make.namePat profileGuard)
    (Make.call (Make.rootPath (profilerPath ["Invocation", maker])) [Make.reference profileStatic])

/-- The declared return type, if a binding can have it: `impl` types cannot be named there. -/
def bindingType? (f : Function) : Option Tree :=
  match f.returnType? with
  | some t => if TokenTree.mentions.mentionsAny "impl" t.toTokens then none else some t
  | none => none

/-- The statements of an async body inside the future that enters the invocation. The declared return type
    is bound, so that the error type of a `?` is still known. -/
def scopedStmts (type : Option Tree) (stmts : List Tree) : List Tree :=
  match type with
  | some t => [Make.letStmt (.node .typePat [.noAttrs, Make.namePat returnName, Make.symbol ":", t])
      (Make.blockExpr stmts), Make.lastExpr (Make.nameExpr returnName)]
  | none => stmts

/-- The future that enters the invocation on every poll, awaited. -/
def scopeExpr (stmts : List Tree) : Tree :=
  let future : Tree := .node .asyncExpr [.noAttrs, Make.word "async", Make.word "move", Make.block stmts]
  .node .awaitExpr [.noAttrs, Make.call (Make.rootPath (profilerPath ["scope"]))
    [Make.reference profileGuard, Make.symbol ",", future], Make.symbol ".", Make.word "await"]

/-- A block with other statements. -/
def withStmts (change : List Tree → List Tree) : Tree → Tree
  | .node .block [.group d o [attrs, .node .stmts ss] c] => .node .block [.group d o [attrs, .node .stmts (change ss)] c]
  | t => t

/-- Adds the prologue to a function. The body of an async function is read again as a part of the future. -/
def ProfileOptions.apply (options : ProfileOptions) (name : String) (f : Function) : Except Halt (Function × Nat) :=
  if f.isConst then .error (.refused .constFn)
  else match f.body with
    | none => .ok (f, 0)
    | some body =>
      match profileItem options name with
      | .error fault => .error (.broken fault)
      | .ok item =>
        if f.isAsync then
          let change (ss : List Tree) : List Tree := [Make.itemStmt item, guardStmt "new",
            Make.lastExpr (scopeExpr (scopedStmts (bindingType? f) ss))]
          match Grammar.parseBlock body.written with
          | .error fault => .error (.broken fault)
          | .ok _ => .ok ({ f with body := some (withStmts change body) }.allowUnreachable, 0)
        else
          .ok ({ f with body := some (withStmts ([Make.itemStmt item, guardStmt "start"] ++ ·) body) }, 0)

end CallProbe.Probe
