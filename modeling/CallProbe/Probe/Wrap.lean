import CallProbe.Call.Prelude
import CallProbe.Call.Walk
import CallProbe.Probe.Error
import CallProbe.Probe.Function

/-! # Wrapping calls

Every accepted call becomes `::shallow_runtime::finish(WRAPPER(&SITE), CALL)`: the wrapper runs before the
call and gives a guard, which is dropped after it on every way out. The call itself stays as written, so
its parts are evaluated once and in their order. -/

namespace CallProbe.Probe

open Source Call

/-- Whether a path can be called as it is written: generic arguments have two colons in front. -/
def isCallee : Tree → Bool
  | .node .path [lead, segments] =>
    let names := segments.elements
    (names.all fun s => match s with
      | .node .segment [_, .node .angleArgs (colons :: _)] => colons.isPresent
      | .node .segment [_, args] => !args.isPresent
      | _ => false) &&
    !(!lead.isPresent && match names with
      | [.node .segment [n, _]] => n.text == "try"
      | _ => false)
  | _ => false

/-- Reads tokens as expressions between commas. -/
def readArguments (ts : List TokenTree) : Except Fault (List Tree) :=
  (Grammar.parseWith (fun reach => Parse.commas (reach (.expr true))) ts).map Tree.children

/-- The first arguments of `finish`: the wrapper called on the site. A path that cannot be called as it is
    written is read as whatever it then means. -/
def guardArgs (wrapper site : Tree) : Except Fault (List Tree) :=
  if isCallee wrapper then .ok [Make.call (.node .pathExpr [.noAttrs, wrapper]) [site]]
  else readArguments (wrapper.toTokens ++ (Make.parens [site]).toTokens)

/-- Why the call of `finish` that takes the place of a call cannot be read, if it cannot: the wrapper is no function that
    can be called, or what wrapping left of the call is no expression. -/
def unreadable? (wrapper : Tree) (site : Site) (call : Tree) : Option Fault :=
  match guardArgs wrapper site.toStatic, Grammar.parseExpr call.written with
  | .error fault, _ => some fault
  | .ok _, .error fault => some fault
  | .ok _, .ok _ => none

/-- The call of `finish` that takes the place of a call. -/
def wrapped (wrapper : Tree) (site : Site) (call : Tree) : Tree :=
  let guard := (guardArgs wrapper site.toStatic).toOption.getD []
  Make.call (Make.rootPath ["shallow_runtime", "finish"] site.start) (guard ++ [Make.symbol "," site.start, call]) site.start

/-- Whether a call is to be wrapped. -/
def CallOptions.accepts (options : CallOptions) (target : Target) : Bool :=
  !(options.ignorePrelude && target.isPrelude) && options.filter.allows target

/-- The strategy that wraps the calls that options let through. It remembers what stops it first. -/
def CallOptions.strategy (options : CallOptions) : Strategy (Option Halt) where
  accepts site := do
    modify (·.or (site.hidden.map .unprintable))
    return options.accepts site.target
  replace site call := do
    modify (·.or ((unreadable? options.wrapper site call).map .broken))
    return wrapped options.wrapper site call

/-- Wraps the calls of a block. Returns the block, the number of calls wrapped, and what stops it. -/
def CallOptions.wrapBlock (options : CallOptions) (function : String) (block : Tree) : (Tree × Nat) × Option Halt :=
  (walkCalls options.strategy function block).run none

/-- Wraps the calls of a function. -/
def CallOptions.apply (options : CallOptions) (name : String) (f : Function) : Except Halt (Function × Nat) :=
  if f.isConst then .error (.refused .constFn)
  else match f.body with
    | none => .ok (f, 0)
    | some body =>
      match options.wrapBlock name body with
      | (_, some halt) => .error halt
      | ((body, count), none) =>
        let f := { f with body := some body }
        .ok (if count = 0 then f else f.allowUnreachable, count)

end CallProbe.Probe
