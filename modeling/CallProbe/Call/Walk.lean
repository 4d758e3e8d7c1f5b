import CallProbe.Call.Site

/-! # Walking over the calls of a block

Every call that runs as part of a function itself is visited once, in the order of the source, except that all
attributes of an expression come first, also those inside its body: calls in closures, async blocks and the
arguments of macros that take expressions, but not in nested items, types, constant blocks or the length of a
repeated array. A `Strategy` is asked about each call before the calls
inside it are visited, and replaces the accepted ones after that. -/

namespace CallProbe.Call

open Source

/-- What to do with calls; `σ` is what it remembers. -/
structure Strategy (σ : Type) where
  accepts : Site → StateM σ Bool
  /-- The replacement for an accepted call, in which the calls inside have been replaced already. -/
  replace : Site → Tree → StateM σ Tree

/-- Whether a path has two colons in front of its first name. Those after a qualified type without a trait
    count. -/
def startsAtRoot : Tree → Bool
  | .node .path [lead, _] => lead.isPresent
  | .node .qualifiedPath [_, _, _, .node .path [lead, _], _, _, _] => lead.isPresent
  | .node .qualifiedPath _ => true
  | _ => false

/-- The function of the runtime that a call names from the root of all paths. -/
def runtimeCall? : Tree → Option (List String)
  | .node .callExpr [_, .node .pathExpr [_, path], _] =>
    match Target.pathNames path with
    | "shallow_runtime" :: rest => if startsAtRoot path then some rest else none
    | _ => none
  | _ => none

/-- The function of the runtime that a call or an awaited call names: such calls were put there by an
    earlier probe. -/
def generatedCall? : Tree → Option (List String)
  | .node .awaitExpr [_, base, _, _] => runtimeCall? base
  | e => runtimeCall? e

/-- Whether the last argument of a call of the runtime is code of the function. -/
def holdsBody (name : List String) : Bool := name == ["finish"] || name == ["profile", "scope"]

/-- Kinds of trees that are not entered: types and generic arguments, items, and constant blocks. -/
def isClosed (k : Kind) : Bool :=
  [Kind.arrayType, .fnType, .implType, .inferType, .macroType, .neverType, .parenType, .pathType, .pointerType,
    .referenceType, .sliceType, .traitObjectType, .tupleType, .angleArgs, .parenArgs, .itemStmt,
    .constExpr].contains k

section

variable {σ : Type} (strategy : Strategy σ) (function : String)

/-- Replaces a call if it was accepted, and counts it. -/
def conclude (accepted : Bool) (site : Site) (call : Tree) : StateT Nat (StateM σ) Tree := do
  if accepted then
    let call ← strategy.replace site call
    modify (· + 1)
    return call
  else return call

mutual

/-- Visits the calls in a tree. -/
def walk : Tree → StateT Nat (StateM σ) Tree
  | .node .repeatExpr [attrs, .group d o (elem :: rest) c] => do
    return .node .repeatExpr [attrs, .group d o ((← walk elem) :: rest) c]
  | .node .forExpr [attrs, label, f, pat, i, iterated, .node .block [.group d o [inner, stmts] c]] => do
    let attrs ← walk attrs
    let inner ← walk inner
    let pat ← walk pat
    let iterated ← walk iterated
    return .node .forExpr [attrs, label, f, pat, i, iterated, .node .block [.group d o [inner, ← walk stmts] c]]
  | .node .whileExpr [attrs, label, w, cond, .node .block [.group d o [inner, stmts] c]] => do
    let attrs ← walk attrs
    let inner ← walk inner
    let cond ← walk cond
    return .node .whileExpr [attrs, label, w, cond, .node .block [.group d o [inner, ← walk stmts] c]]
  | .node .matchExpr [attrs, m, value, .group d o [inner, arms] c] => do
    let attrs ← walk attrs
    let inner ← walk inner
    let value ← walk value
    return .node .matchExpr [attrs, m, value, .group d o [inner, ← walk arms] c]
  | .node k cs => do
    if isClosed k then return .node k cs
    match generatedCall? (.node k cs) with
    | some name =>
      if !holdsBody name then return .node k cs
      else if k = .awaitExpr then return .node k (← walkAwaitedLast cs)
      else return .node k (← walkLastArg cs)
    | none =>
      match Site.of? function (.node k cs) with
      | some site =>
        let accepted ← strategy.accepts site
        let cs ← if k = .awaitExpr then walkAwaited cs else walkAll cs
        conclude strategy accepted site (.node k cs)
      | none => return .node k (← walkAll cs)
  | .group d o content c => return .group d o (← walkAll content) c
  | .arguments _ read => do
    let read ← walkAll read
    return .arguments (read.flatMap Tree.written) read
  | t => return t

/-- Visits the calls in trees, from left to right. -/
def walkAll : List Tree → StateT Nat (StateM σ) (List Tree)
  | [] => return []
  | t :: ts => return (← walk t) :: (← walkAll ts)

/-- Visits the calls inside an awaited call, given the parts of the whole. -/
def walkAwaited : List Tree → StateT Nat (StateM σ) (List Tree)
  | attrs :: .node k cs :: rest => return attrs :: .node k (← walkAll cs) :: rest
  | ts => return ts

/-- Visits the calls in the last argument of an awaited call, given the parts of the whole. -/
def walkAwaitedLast : List Tree → StateT Nat (StateM σ) (List Tree)
  | attrs :: .node k cs :: rest => return attrs :: .node k (← walkLastArg cs) :: rest
  | ts => return ts

/-- Visits the calls in the last argument of a call, given its parts. -/
def walkLastArg : List Tree → StateT Nat (StateM σ) (List Tree)
  | [attrs, callee, .group d o [.node .list args] c] =>
    return [attrs, callee, .group d o [.node .list (← walkLast args)] c]
  | ts => return ts

/-- Visits the calls in the last element of a list. -/
def walkLast : List Tree → StateT Nat (StateM σ) (List Tree)
  | [] => return []
  | [t] => return [← walk t]
  | [t, sep] => return [← walk t, sep]
  | t :: sep :: rest => return t :: sep :: (← walkLast rest)

end

/-- Visits every call of a block. Returns the block and the number of calls that were replaced. -/
def walkCalls (block : Tree) : StateM σ (Tree × Nat) := (walk strategy function block).run 0

end

end CallProbe.Call
