import CallProbe.Layout.Type

/-! # Layout of expressions and statements -/

namespace CallProbe.Layout

open Source

/-! ### Questions about expressions -/

/-- The attributes in front of an expression. -/
def outerAttrs : Tree → Tree
  | .node _ (.node .attrs as :: _) => .node .attrs as
  | _ => .noAttrs

/-- Whether attributes stand in front of an expression. -/
def hasOuterAttrs (e : Tree) : Bool := !(outerAttrs e).attrList.isEmpty

/-- The inner attributes and the statements of a block. -/
def blockParts : Tree → Tree × List Tree
  | .node .block [.group _ _ [attrs, .node .stmts ss] _] => (attrs, ss)
  | _ => (.noAttrs, [])

/-- A name of at most four characters, after which a line that starts with it does not end. -/
def isShortName : Tree → Bool
  | .node .pathExpr [.node .attrs [], .node .path [.node .absent _, .node .list [.node .segment [n, args]]]] =>
    !args.isPresent && n.text.utf8ByteSize ≤ 4
  | _ => false

/-- Expressions that are closed by a bracket of their own and so need no box as the only argument. -/
def isBracketed (e : Tree) : Bool :=
  match e.kind? with
  | some k => [Kind.arrayExpr, .asyncExpr, .blockExpr, .closureExpr, .constExpr, .structExpr, .tryBlockExpr,
      .tupleExpr, .unsafeBlockExpr].contains k && !hasOuterAttrs e
  | none => false

/-- The kinds of expressions that end with a block. -/
def blockKinds : List Kind :=
  [.ifExpr, .matchExpr, .blockExpr, .unsafeBlockExpr, .whileExpr, .loopExpr, .forExpr, .tryBlockExpr, .constExpr]

/-- Whether an expression ends a statement without a semicolon. -/
def endsStatement : Tree → Bool
  | .node .macroExpr [_, .node .macroCall [_, _, .group .brace _ _ _]] => true
  | .node k _ => blockKinds.contains k
  | _ => false

/-- Whether a match arm goes on after an expression only with a comma. -/
def needsComma : Tree → Bool
  | .node k _ => !blockKinds.contains k
  | _ => true

/-- Whether an expression means the same inside braces of its own. -/
def fitsBraces : Tree → Bool
  | .node .assignExpr [_, left, _, _] => !endsStatement left && fitsBraces left
  | .node .awaitExpr [_, base, _, _] => fitsBraces base
  | .node .binaryExpr [_, left, _, _] => !endsStatement left && fitsBraces left
  | .node .callExpr [_, callee, _] => !endsStatement callee && fitsBraces callee
  | .node .castExpr [_, e, _, _] => !endsStatement e && fitsBraces e
  | .node .fieldExpr [_, base, _, _] => fitsBraces base
  | .node .indexExpr [_, base, _] => !endsStatement base && fitsBraces base
  | .node .letExpr _ => false
  | .node .methodCallExpr [_, receiver, _, _, _, _] => fitsBraces receiver
  | .node .rangeExpr [_, start, _, _] => !start.isPresent || (!endsStatement start && fitsBraces start)
  | .node .tryExpr [_, e, _] => fitsBraces e
  | _ => true

/-- Whether the brace after a condition goes to a line of its own if the condition is broken. -/
def movesBrace : Tree → Bool
  | .node .breakExpr [_, _, _, e] | .node .letExpr [_, _, _, _, e] | .node .returnExpr [_, _, e]
  | .node .yieldExpr [_, _, e] | .node .rangeExpr [_, _, _, e] | .node .callExpr [_, e, _]
  | .node .parenExpr [_, .group _ _ [e] _] | .node .rawAddrExpr [_, _, _, _, e]
  | .node .referenceExpr [_, _, _, e] | .node .tryExpr [_, e, _] | .node .unaryExpr [_, _, e] => movesBrace e
  | .node k _ => [Kind.assignExpr, .awaitExpr, .binaryExpr, .castExpr, .fieldExpr, .indexExpr,
      .methodCallExpr].contains k
  | _ => false

/-- Whether an operator assigns. -/
def assigns (op : Tree) : Bool :=
  ["+=", "-=", "*=", "/=", "%=", "^=", "&=", "|=", "<<=", ">>="].contains op.text

/-- Whether an expression gets a semicolon where a block ends with it. -/
def addsSemicolon : Tree → Bool
  | .node .binaryExpr [_, _, op, _] => assigns op
  | .node k _ => [Kind.assignExpr, .breakExpr, .continueExpr, .returnExpr, .yieldExpr].contains k
  | _ => false

/-- Whether the semicolon after an expression is dropped. -/
def dropsSemicolon : Tree → Bool
  | .node .ifExpr [_, _, _, _, other] => match other with
    | .node .elseBranch [_, e] => dropsSemicolon e
    | _ => true
  | .node k _ => k == .forExpr || k == .whileExpr
  | _ => false

/-- Literals of which several fit on a line of an array. -/
def isPlainElement : Tree → Bool
  | .node .litExpr [_, .leaf (.word _ _)] => true
  | .node .litExpr [_, .leaf (.literal t _)] => match Literal.ofText t with
    | some .byte | some .char | some (.int _ _) => true
    | _ => false
  | _ => false

/-! ### Blocks -/

/-- Statements in order. -/
def stmtsDoc (show_ : Show) (ss : List Tree) : Doc := each (fun last s => show_ (.stmt s last)) ss

/-- The inside of a block in a box, and its closing brace. -/
def bodyBox (show_ : Show) (block : Tree) : Doc :=
  let (attrs, ss) := blockParts block
  uniformBox tab (lineBreakIfFollowed ++ attrsDoc show_ attrs ++ stmtsDoc show_ ss ++ outdent) ++ word "\x7d"

/-- The last expression of a block, if there is nothing else in it. -/
def onlyExpr? : List Tree → Option Tree
  | [.node .exprStmt [e, .node .absent _]] => some e
  | _ => none

/-- A block that may stand on one line. -/
def smallBlock (show_ : Show) (block : Tree) : Doc :=
  let (attrs, ss) := blockParts block
  if attrs.attrList.isEmpty && ss.isEmpty then word "\x7b" ++ word "\x7d"
  else
    let content := match onlyExpr? ss with
      | some e => filledBox 0 (show_ (.expr e true)) ++ space
      | none => stmtsDoc show_ ss
    word "\x7b" ++ space ++ attrsDoc show_ attrs ++ content ++ outdent ++ word "\x7d"

/-- An expression in braces. -/
def exprInBraces (show_ : Show) (indent : Int) (e : Tree) : Doc :=
  word "\x7b" ++ space ++ filledBox indent (show_ (.expr e true)) ++ space ++ outdent ++ word "\x7d"

/-- The label of a loop or block. -/
def labelDoc : Tree → Doc
  | .node .label [l, _] => word l.text ++ word ": "
  | _ => nothing

/-- The condition before a block, and the gap after it. -/
def conditionDoc (show_ : Show) (e : Tree) : Doc :=
  uniformBox 0 (show_ (.inner e) ++ if movesBrace e then space else word " ")

/-! ### Calls and chains -/

/-- The arguments of a call. -/
def callArgs (show_ : Show) (args : Tree) : Doc :=
  match args.elements with
  | [e] => if isBracketed e then show_ (.inner e) else listBox tab (fun e => show_ (.inner e)) [e]
  | es => listBox tab (fun e => show_ (.inner e)) es

/-- A gap before a dot, unless a line starts with a short name there. -/
def dotGap (lineStart : Bool) (base : Tree) : Doc :=
  if lineStart && isShortName base then nothing else [.gapBeforeDot]

/-- The method and arguments of a call on something. -/
def methodTail (show_ : Show) (method args turbofish : Tree) (offset : Int) : Doc :=
  word "." ++ word method.text ++ angleArgsDoc show_ .inExpr turbofish ++
    uniformBox offset (word "(" ++ callArgs show_ args ++ word ")")

/-- An expression that a dot, call or subscript follows. It shares the box of the whole chain. -/
def chainedDoc (show_ : Show) (lineStart : Bool) : Tree → Doc
  | .node .awaitExpr [_, base, _, _] =>
    show_ (.chained base lineStart) ++ dotGap lineStart base ++ word ".await"
  | .node .callExpr [_, callee, .group _ _ [args] _] =>
    show_ (.chained callee false) ++ word "(" ++ callArgs show_ args ++ word ")"
  | .node .fieldExpr [_, base, _, m] =>
    show_ (.chained base lineStart) ++ dotGap lineStart base ++ word "." ++ word m.text
  | .node .indexExpr [_, base, .group _ _ [key] _] =>
    show_ (.chained base lineStart) ++ word "[" ++ show_ (.inner key) ++ word "]"
  | .node .methodCallExpr [_, receiver, _, method, turbofish, .group _ _ [args] _] =>
    show_ (.chained receiver lineStart) ++ dotGap lineStart receiver ++ methodTail show_ method args turbofish 0
  | .node .tryExpr [_, e, _] => show_ (.chained e lineStart) ++ word "?"
  | e => uniformBox (-tab) (show_ (.inner e))

/-! ### Single kinds of expressions -/

/-- A closure's body in braces if it does not fit. -/
def closureBody (show_ : Show) (body : Tree) : Doc :=
  let bare := match body.kind? with
    | some .matchExpr | some .callExpr => !hasOuterAttrs body
    | _ => isBracketed body
  if bare then show_ (.inner body)
  else
    let braces := fitsBraces body
    uniformBox tab ([.gap { before := if braces then "\x7b" else "(" }] ++ show_ (.inner body) ++
      [.gap { offset := -tab
              before := if braces && addsSemicolon body then ";" else ""
              after := if braces then "\x7d" else ")" }])

/-- A closure. -/
def closureDoc (show_ : Show) (front params output body : Tree) : Doc :=
  let elems := params.elements
  let one (first last : Bool) (p : Tree) : Doc :=
    (if first then softBreak else nothing) ++ show_ (.pattern p) ++ if last then nothing else word "," ++ space
  let inputs := word "|" ++ eachFrom one true elems
  let heads := front.children.flatMap fun w => if w.isPresent then word w.text ++ word " " else nothing
  match output with
  | .node .returnType [_, t] =>
    let close := if elems.isEmpty then nothing else comma true ++ outdent
    let inner := match body with
      | .node .blockExpr [_, .node .absent _, _] =>
        if hasOuterAttrs body then uniformBox tab (exprInBraces show_ 0 body) else show_ (.inner body)
      | _ => uniformBox tab (exprInBraces show_ 0 body)
    heads ++ uniformBox tab (inputs ++ close ++ word "|") ++ word " -> " ++ show_ (.type t) ++ word " " ++ noBreak ++ inner
  | _ =>
    heads ++ uniformBox tab (inputs ++ word "|" ++ space ++ outdent) ++ noBreak ++ closureBody show_ body

/-- The branches of an `if` after the first block. -/
def elseDoc (show_ : Show) : Tree → Doc
  | .node .elseBranch [_, .node .ifExpr [_, _, cond, body, other]] =>
    word " else " ++ word "if " ++ uniformBox (-tab) (conditionDoc show_ cond) ++ smallBlock show_ body ++
      elseDoc show_ other
  | .node .elseBranch [_, .node .blockExpr [_, _, body]] => word " else " ++ smallBlock show_ body
  | .node .elseBranch [_, e] => word " else " ++ exprInBraces show_ tab e
  | _ => nothing

/-- An `if`. -/
def ifDoc (show_ : Show) (cond body other : Tree) : Doc :=
  let (_, ss) := blockParts body
  let rest :=
    if other.isPresent then smallBlock show_ body ++ elseDoc show_ other
    else if ss.isEmpty then word "\x7b\x7d"
    else word "\x7b" ++ lineBreak ++ stmtsDoc show_ ss ++ outdent ++ word "\x7d"
  uniformBox tab (word "if " ++ uniformBox (-tab) (conditionDoc show_ cond) ++ rest)

/-- The body of a match arm without the braces around a single expression. -/
def armBody : Tree → Tree
  | .node .blockExpr [.node .attrs [], .node .absent _,
      .node .block [.group _ _ [.node .attrs [], .node .stmts [.node .exprStmt [e, .node .absent _]]] _]] =>
    armBody e
  | t => t

/-- Braces in place of an empty tuple. -/
def bracesForUnit : Tree → Tree
  | .node .tupleExpr [.node .attrs [], .group _ o [.node .list []] c] =>
    .node .blockExpr [.noAttrs, .absent, .node .block [.group .brace o [.noAttrs, .node .stmts []] c]]
  | t => t

/-- An arm of a `match`. -/
def armDoc (show_ : Show) : Tree → Doc
  | .node .arm [attrs, pat, guard, _, body, _] =>
    let guardDoc := match guard with
      | .node .guard [_, e] => word " if " ++ show_ (.inner e)
      | _ => nothing
    let bodyDoc := match bracesForUnit (armBody body) with
      | .node .blockExpr [_, label, block] => labelDoc label ++ word "\x7b" ++ noBreak ++ bodyBox show_ block
      | e =>
        let braces := fitsBraces e
        noBreak ++ uniformBox tab ([.gap { before := if braces then "\x7b" else "(" }] ++ show_ (.expr e true) ++
          [.gap { offset := -tab
                  before := if braces && addsSemicolon e then ";" else ""
                  after := if braces then "\x7d" else "),"
                  inline := if needsComma e then "," else "" }])
    attrsDoc show_ attrs ++ filledBox 0 (show_ (.pattern pat) ++ guardDoc ++ word " => " ++ bodyDoc)
  | _ => nothing

/-- A field of a struct literal. -/
def fieldValueDoc (show_ : Show) : Tree → Doc
  | .node .fieldValue [attrs, m, colon, e] =>
    attrsDoc show_ attrs ++ word m.text ++
      if colon.isPresent then word ": " ++ filledBox 0 (show_ (.inner e)) else nothing
  | _ => nothing

/-- An array given by its elements. -/
def arrayDoc (show_ : Show) (elems : List Tree) : Doc :=
  if elems.isEmpty then word "[]"
  else if elems.all isPlainElement then
    uniformBox tab (word "[" ++ softBreak ++ filledBox 0 (sepBy (word "," ++ space) (fun e => show_ (.inner e)) elems) ++
      comma true ++ outdent ++ word "]")
  else word "[" ++ listBox tab (fun e => show_ (.inner e)) elems ++ word "]"

/-- A word, and a value after it if there is one. -/
def wordAndValue (show_ : Show) (w : String) (e : Tree) : Doc :=
  word w ++ if e.isPresent then word " " ++ show_ (.inner e) else nothing

/-- A word and a lifetime, if there is one. -/
def wordAndLifetime (w : String) (l : Tree) : Doc :=
  word w ++ if l.isPresent then word " " ++ word l.text else nothing

/-- An expression without the attributes in front of it. -/
def bareExprDoc (show_ : Show) (lineStart : Bool) (e : Tree) : Doc :=
  match e with
  | .node .arrayExpr [_, .group _ _ [elems] _] => arrayDoc show_ elems.elements
  | .node .assignExpr [_, left, _, right] =>
    filledBox 0 (show_ (.inner left) ++ word " = " ++ noBreak ++ show_ (.inner right))
  | .node .asyncExpr [_, _, m, block] =>
    word "async " ++ wordIf m "move " ++ uniformBox tab (smallBlock show_ block)
  | .node .awaitExpr _ | .node .fieldExpr _ => uniformBox tab (chainedDoc show_ lineStart e)
  | .node .binaryExpr [_, left, op, right] =>
    filledBox tab (filledBox (-tab) (show_ (.inner left)) ++ space ++ word op.text ++ word " " ++ show_ (.inner right))
  | .node .blockExpr [_, label, block] => labelDoc label ++ uniformBox tab (smallBlock show_ block)
  | .node .breakExpr [_, _, l, value] =>
    wordAndLifetime "break" l ++ if value.isPresent then word " " ++ show_ (.inner value) else nothing
  | .node .callExpr [_, callee, .group _ _ [args] _] =>
    show_ (.expr callee lineStart) ++ word "(" ++ callArgs show_ args ++ word ")"
  | .node .castExpr [_, value, _, t] =>
    filledBox tab (filledBox (-tab) (show_ (.inner value)) ++ space ++ word "as " ++ show_ (.type t))
  | .node .closureExpr [_, lifetimes, c, s, a, m, _, params, _, output, body] =>
    filledBox 0 (boundLifetimesDoc show_ lifetimes ++ closureDoc show_ (.list [c, s, a, m]) params output body)
  | .node .constExpr [_, _, block] => word "const " ++ uniformBox tab (smallBlock show_ block)
  | .node .continueExpr [_, _, l] => wordAndLifetime "continue" l
  | .node .forExpr [_, label, _, pat, _, iterated, block] =>
    filledBox 0 (labelDoc label ++ word "for " ++ show_ (.pattern pat) ++ word " in " ++ noBreak ++
      conditionDoc show_ iterated ++ word "\x7b" ++ noBreak ++ bodyBox show_ block)
  | .node .ifExpr [_, _, cond, body, other] => ifDoc show_ cond body other
  | .node .indexExpr [_, base, .group _ _ [key] _] =>
    show_ (.expr base lineStart) ++ word "[" ++ show_ (.inner key) ++ word "]"
  | .node .inferExpr _ => word "_"
  | .node .letExpr [_, _, pat, _, value] =>
    filledBox 0 (word "let " ++ filledBox 0 (show_ (.pattern pat)) ++ word " = " ++ noBreak ++
      filledBox 0 (show_ (.inner value)))
  | .node .litExpr [_, l] => literalDoc l
  | .node .loopExpr [_, label, _, block] => labelDoc label ++ word "loop \x7b" ++ bodyBox show_ block
  | .node .macroExpr [_, call] => macroDoc false call
  | .node .matchExpr [_, _, value, .group _ _ [attrs, .node .arms arms] _] =>
    filledBox 0 (word "match " ++ conditionDoc show_ value ++ word "\x7b" ++ noBreak ++
      uniformBox tab (lineBreakIfFollowed ++ attrsDoc show_ attrs ++
        arms.flatMap (fun a => armDoc show_ a ++ lineBreak) ++ outdent) ++ word "\x7d")
  | .node .methodCallExpr [_, receiver, _, method, turbofish, .group _ _ [args] _] =>
    let offset := if lineStart && isShortName receiver then -tab else 0
    uniformBox tab (show_ (.chained receiver lineStart) ++ dotGap lineStart receiver ++
      methodTail show_ method args turbofish offset)
  | .node .parenExpr [_, .group _ _ [inner] _] => word "(" ++ show_ (.inner inner) ++ word ")"
  | .node .pathExpr [_, p] => pathDoc show_ .inExpr p
  | .node .rangeExpr [_, start, limits, stop] => rangeDoc show_ start limits stop
  | .node .rawAddrExpr [_, _, _, m, inner] => word "&raw " ++ word m.text ++ word " " ++ show_ (.inner inner)
  | .node .referenceExpr [_, _, m, inner] => word "&" ++ wordIf m "mut " ++ show_ (.inner inner)
  | .node .repeatExpr [_, .group _ _ [elem, _, n] _] =>
    word "[" ++ show_ (.inner elem) ++ word "; " ++ show_ (.inner n) ++ word "]"
  | .node .returnExpr [_, _, value] => wordAndValue show_ "return" value
  | .node .structExpr [_, p, .group _ _ [fields, dots, rest] _] =>
    let one (last : Bool) (f : Tree) : Doc := fieldValueDoc show_ f ++ commaOrSpace (last && !rest.isPresent)
    let base := if dots.isPresent && rest.isPresent then word ".." ++ show_ (.inner rest) ++ space else nothing
    .box tab true :: filledBox (-tab) (pathDoc show_ .inExpr p) ++ word " \x7b" ++ spaceIfFollowed ++
      each one fields.elements ++ base ++ outdent ++ [.closeWithin 34] ++ word "\x7d"
  | .node .tryExpr [_, inner, _] => show_ (.expr inner lineStart) ++ word "?"
  | .node .tryBlockExpr [_, _, block] => word "try " ++ uniformBox tab (smallBlock show_ block)
  | .node .tupleExpr [_, .group _ _ [elems] _] => tupleBox (fun e => show_ (.inner e)) true elems.elements
  | .node .unaryExpr [_, op, inner] => word op.text ++ show_ (.inner inner)
  | .node .unsafeBlockExpr [_, _, block] => word "unsafe " ++ uniformBox tab (smallBlock show_ block)
  | .node .whileExpr [_, label, _, cond, block] =>
    labelDoc label ++ word "while " ++ conditionDoc show_ cond ++ word "\x7b" ++ noBreak ++ bodyBox show_ block
  | .node .yieldExpr [_, _, value] => wordAndValue show_ "yield" value
  | .node .verbatimExpr [.tokens ts] => passedThrough "Expr" (lineOf ts)
  | _ => nothing

/-- An expression. -/
def exprDoc (show_ : Show) (lineStart : Bool) (e : Tree) : Doc :=
  attrsDoc show_ (outerAttrs e) ++ bareExprDoc show_ lineStart e

/-! ### Statements -/

/-- The initial value of a `let`. -/
def initDoc (show_ : Show) : Tree → Doc
  | .node .letInit [_, value, other] =>
    let rest := match other with
      | .node .elseBranch [_, .node .blockExpr [_, _, block]] =>
        space ++ word "else " ++ [.close] ++ noBreak ++ [.box tab true] ++ smallBlock show_ block
      | _ => nothing
    word " = " ++ noBreak ++ show_ (.inner value) ++ rest
  | _ => nothing

/-- A statement; `last` says whether it is the last one of its block. -/
def stmtDoc (show_ : Show) (last : Bool) : Tree → Doc
  | .node .letStmt [attrs, _, pat, init, _] =>
    attrsDoc show_ attrs ++ filledBox 0 (word "let " ++ show_ (.pattern pat) ++ initDoc show_ init) ++ word ";" ++ lineBreak
  | .node .itemStmt [i] => show_ (.item i .module)
  | .node .exprStmt [.node .emptyExpr _, _] => nothing
  | .node .exprStmt [e, semi] =>
    let mark := if semi.isPresent then !dropsSemicolon e else addsSemicolon e
    filledBox 0 (show_ (.expr e true) ++ if mark then word ";" else nothing) ++ lineBreak
  | .node .macroStmt [attrs, call, semi] =>
    attrsDoc show_ attrs ++ macroDoc (semi.isPresent || (!last && !isBraced call)) call ++ lineBreak
  | _ => nothing

end CallProbe.Layout
