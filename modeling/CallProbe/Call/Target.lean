import CallProbe.Source.Literal
import CallProbe.Source.Tree

/-! # Names of calls

A call is named after the shape of what is called, whatever that is when the program runs: segments of a
path are joined by `::`, fields and methods by `.`, a subscript shows its key if that is a string or a
number and `*` otherwise, and a result that is called in turn is shown as `name()`. -/

namespace CallProbe.Call

open Source

/-- A subscript key. -/
inductive Key where
  /-- A string or a number, without quotes and suffix. -/
  | literal (text : String)
  /-- Any other key; in a pattern, every key. -/
  | any
deriving DecidableEq, Repr, Inhabited

/-- What is called. -/
inductive Target where
  /-- A path such as `run` or `Vec::new`. -/
  | path (segments : List String)
  /-- A field or method of something. -/
  | member (base : Target) (name : String)
  /-- A subscript of something. -/
  | index (base : Target) (key : Key)
  /-- The result of a call. -/
  | result (base : Target)
  /-- Something without a name: a closure, a block, a cast. -/
  | unnamed
deriving DecidableEq, Repr, Inhabited

/-- A key as it stands between brackets. -/
def Key.text : Key → String
  | literal t => t
  | any => "*"

namespace Target

/-- The name of a call. -/
def text : Target → String
  | path segments => Text.joinWith "::" segments
  | member base name => base.text ++ "." ++ name
  | index base key => base.text ++ "[" ++ key.text ++ "]"
  | result base => base.text ++ "()"
  | unnamed => "_"

/-- The method, field or last segment that is called. -/
def lastSegment? : Target → Option String
  | path segments => segments.getLast?
  | member _ name => some name
  | _ => none

/-- The names of the segments of a path. -/
def segmentNames (segments : Tree) : List String :=
  segments.elements.map fun s => match s with
    | .node .segment [n, _] => n.text
    | _ => ""

/-- The names along a path; generic arguments and leading colons are left aside, and the trait of a
    qualified path counts. -/
def pathNames : Tree → List String
  | .node .path [_, segments] => segmentNames segments
  | .node .qualifiedPath [_, _, _, .node .path [_, trait], _, _, segments] =>
    segmentNames trait ++ segmentNames segments
  | .node .qualifiedPath [_, _, _, _, _, _, segments] => segmentNames segments
  | _ => []

/-- The key of a subscript. Parentheses around it do not count. -/
def keyOf : Tree → Key
  | .node .litExpr [_, .leaf (.literal t _)] =>
    match Literal.ofText t with
    | some (.str s) => .literal s
    | some (.int digits _) => .literal digits
    | some (.float digits _) => .literal digits
    | _ => .any
  | .node .parenExpr [_, .group _ _ [e] _] => keyOf e
  | _ => .any

/-- What an expression in the place of a callee stands for. Parentheses and references do not count. -/
def ofExpr : Tree → Target
  | .node .pathExpr [_, p] => path (pathNames p)
  | .node .fieldExpr [_, base, _, m] => member (ofExpr base) m.text
  | .node .indexExpr [_, base, .group _ _ [key] _] => index (ofExpr base) (keyOf key)
  | .node .callExpr [_, callee, _] => result (ofExpr callee)
  | .node .methodCallExpr [_, receiver, _, method, _, _] => result (member (ofExpr receiver) method.text)
  | .node .parenExpr [_, .group _ _ [e] _] => ofExpr e
  | .node .referenceExpr [_, _, _, e] => ofExpr e
  | _ => unnamed

/-- What a call calls, if the expression is a call. -/
def ofCall? : Tree → Option Target
  | .node .callExpr [_, callee, _] => some (ofExpr callee)
  | .node .methodCallExpr [_, receiver, _, method, _, _] => some (member (ofExpr receiver) method.text)
  | _ => none

end Target

end CallProbe.Call
