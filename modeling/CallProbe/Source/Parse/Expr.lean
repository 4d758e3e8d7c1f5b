import CallProbe.Source.Parse.Pattern

/-! # Parsing expressions

Binary operators are read by climbing: an operand takes the operators that bind more tightly than the one
in front of it. -/

namespace CallProbe.Source.Parse

/-! ### Operators -/

/-- The binary operators, longer ones before those they start with. -/
def binaryOperators : List (String × Precedence) :=
  [("+=", .assign), ("-=", .assign), ("*=", .assign), ("/=", .assign), ("%=", .assign), ("^=", .assign),
    ("&=", .assign), ("|=", .assign), ("<<=", .assign), (">>=", .assign), ("&&", .conjunction),
    ("||", .disjunction), ("<<", .shift), (">>", .shift), ("==", .compare), ("<=", .compare),
    ("!=", .compare), (">=", .compare), ("+", .sum), ("-", .sum), ("*", .product), ("/", .product),
    ("%", .product), ("^", .bitXor), ("&", .bitAnd), ("|", .bitOr), ("<", .compare), (">", .compare)]

/-- The binary operator that comes next. -/
def operatorAhead (ts : List TokenTree) : Option (String × Precedence) :=
  binaryOperators.find? fun op => Ahead.symbol op.1 ts

/-- Whether an assignment comes next. -/
def assignAhead (ts : List TokenTree) : Bool := Ahead.symbol "=" ts && !Ahead.symbol "=>" ts

/-- The precedence of what comes next; the loosest if it is no operator. -/
def precedenceAhead (ts : List TokenTree) : Precedence :=
  match operatorAhead ts with
  | some (_, p) => p
  | none =>
    if assignAhead ts then .assign
    else if Ahead.symbol ".." ts then .range
    else if Ahead.word "as" ts then .cast
    else .jump

/-- Whether an expression compares two values. -/
def isComparison : Tree → Bool
  | .node .binaryExpr [_, _, op, _] => ["==", "!=", "<", ">", "<=", ">="].contains op.text
  | _ => false

/-- Whether a dot that is not part of a range comes next. -/
def dotAhead (ts : List TokenTree) : Bool := Ahead.symbol "." ts && !Ahead.symbol ".." ts

/-- Whether a half-open range has no end. -/
def noRangeEnd (structs : Bool) (ts : List TokenTree) : Bool :=
  ts.isEmpty || dotAhead ts || Ahead.word "as" ts || (!structs && Ahead.group .brace ts) ||
    [",", ";", "?", "=>", "=", "+", "/", "%", "^", ">", "<=", "!=", "-=", "*=", "&=", "|=", "<<="].any
      (Ahead.symbol · ts)

/-- The dots of a range and its end. -/
def rangeRest (reach : Reach) (structs : Bool) : Parser (Tree × Tree) := do
  let ts ← get
  if Ahead.symbol "..=" ts then
    let limits ← symbol "..="
    return (limits, ← reach (.operand structs .range))
  else if Ahead.symbol "..." ts then refuse
  else
    let limits ← symbol ".."
    if noRangeEnd structs (← get) then return (limits, .absent)
    return (limits, ← reach (.operand structs .range))

/-- Whether what follows would apply to a type after `as`. -/
def castGoesOn (ts : List TokenTree) : Bool :=
  dotAhead ts || Ahead.symbol "?" ts || Ahead.group .bracket ts || Ahead.group .paren ts

/-- Operators after a left operand. -/
def climb (reach : Reach) (left : Tree) (structs : Bool) (base : Precedence) : Parser Tree := do
  let ts ← get
  if left.kind? == some .rangeExpr then return left
  match operatorAhead ts with
  | some (op, p) =>
    if p.rank < base.rank then return left
    if p == .compare && isComparison left then throw .chainedComparison
    let o ← symbol op
    let right ← reach (.operand structs p)
    reach (.climb (.node .binaryExpr [.noAttrs, left, o, right]) structs base)
  | none =>
    if base.rank ≤ Precedence.assign.rank && assignAhead ts then
      let eq ← symbol "="
      let right ← reach (.operand structs .assign)
      reach (.climb (.node .assignExpr [.noAttrs, left, eq, right]) structs base)
    else if base.rank ≤ Precedence.range.rank && Ahead.symbol ".." ts then
      let (limits, stop) ← rangeRest reach structs
      return .node .rangeExpr [.noAttrs, left, limits, stop]
    else if base.rank ≤ Precedence.cast.rank && Ahead.word "as" ts then
      let as_ ← word "as"
      let ty ← reach (.type false)
      if castGoesOn (← get) then refuse
      reach (.climb (.node .castExpr [.noAttrs, left, as_, ty]) structs base)
    else return left

/-- Lets an operand take the operators that bind more tightly than the one in front of it. -/
def operandFuel (reach : Reach) (structs : Bool) (after : Precedence) : Nat → Tree → Parser Tree
  | 0, e => return e
  | fuel + 1, e => do
    let before ← get
    let next := precedenceAhead before
    if after.rank < next.rank || (next == .assign && after == .assign) then
      let e' ← reach (.climb e structs next)
      if (← get).length == before.length then return e' else operandFuel reach structs after fuel e'
    else return e

/-- The operand after an operator. -/
def operand (reach : Reach) (structs : Bool) (after : Precedence) : Parser Tree := do
  let e ← reach (.unary structs)
  operandFuel reach structs after ((← get).length + 1) e

/-! ### What follows an expression -/

/-- The fields of a number such as `0.1`, which stands for two of them, and whether a dot ends it. -/
def fieldsOfNumber (text : String) : Option (List String × Bool) :=
  let parts := text.splitOn "."
  let dotted := parts.getLast? == some ""
  let parts := if dotted then parts.dropLast else parts
  (parts.mapM fieldDigits?).map (·, dotted)

/-- Takes the fields that a number stands for. -/
def numberedFields (base dot : Tree) (pos : Pos) (digits : List String) : Tree :=
  (digits.foldl (fun (e, d) part =>
    (Tree.node .fieldExpr [.noAttrs, e, d, .leaf (.literal part pos)], .leaf (.symbol "." pos))) (base, dot)).1

/-- What follows a dot that stands for itself. -/
def afterDot (reach : Reach) (base dot : Tree) : Parser Tree := do
  if Ahead.word "await" (← get) then return .node .awaitExpr [.noAttrs, base, dot, ← anyWord]
  let m ← member
  let ts ← get
  if isNamed m && Ahead.symbol "::" ts then
    let colons ← symbol "::"
    if !Ahead.symbol "<" (← get) then refuse
    match ← angleArgs reach with
    | .node .angleArgs (_ :: rest) =>
      let args ← group .paren do return [← commas (reach (.expr true))]
      return .node .methodCallExpr [.noAttrs, base, dot, m, .node .angleArgs (colons :: rest), args]
    | _ => refuse
  else if isNamed m && Ahead.group .paren ts then
    let args ← group .paren do return [← commas (reach (.expr true))]
    return .node .methodCallExpr [.noAttrs, base, dot, m, .absent, args]
  else return .node .fieldExpr [.noAttrs, base, dot, m]

/-- A dot and what follows it. -/
def dotted (reach : Reach) (base : Tree) : Parser Tree := do
  let dot ← symbol "."
  let ts ← get
  if Ahead.fractional ts then
    match ts with
    | .literal t p :: rest =>
      match fieldsOfNumber t with
      | none => refuse
      | some (digits, endsInDot) =>
        set rest
        let e := numberedFields base dot p digits
        if endsInDot then afterDot reach e (.leaf (.symbol "." p)) else return e
    | _ => refuse
  else afterDot reach base dot

/-- Calls, fields, subscripts and question marks after an expression. -/
def trailers (reach : Reach) (base : Tree) : Parser Tree := do
  let ts ← get
  let range := base.kind? == some .rangeExpr
  if Ahead.group .paren ts then
    let args ← group .paren do return [← commas (reach (.expr true))]
    reach (.trailers (.node .callExpr [.noAttrs, base, args]))
  else if dotAhead ts && !range then reach (.trailers (← dotted reach base))
  else if Ahead.group .bracket ts then
    let key ← group .bracket do return [← reach (.expr true)]
    reach (.trailers (.node .indexExpr [.noAttrs, base, key]))
  else if Ahead.symbol "?" ts && !range then
    reach (.trailers (.node .tryExpr [.noAttrs, base, ← symbol "?"]))
  else return base

/-! ### Expressions that start with a word or a bracket -/

/-- A field of a struct literal. -/
def fieldValue (reach : Reach) : Parser Tree := do
  let attrs ← outerAttrs reach
  let m ← member
  if Ahead.symbol ":" (← get) || !isNamed m then
    let colon ← symbol ":"
    return .node .fieldValue [attrs, m, colon, ← reach (.expr true)]
  else return .node .fieldValue [attrs, m, .absent, .absent]

/-- The fields of a struct literal, and the base after two dots. -/
def fieldValuesFuel (reach : Reach) : Nat → Parser (List Tree × Tree × Tree)
  | 0 => refuse
  | fuel + 1 => do
    if atEnd (← get) then return ([], .absent, .absent)
    if Ahead.symbol ".." (← get) then
      let dots ← symbol ".."
      return ([], dots, ← whenAhead (!atEnd ·) (reach (.expr true)))
    let f ← fieldValue reach
    if atEnd (← get) then return ([f], .absent, .absent)
    let comma ← symbol ","
    let (fs, dots, rest) ← fieldValuesFuel reach fuel
    return (f :: comma :: fs, dots, rest)

/-- A path, a macro call or a struct literal. -/
def pathExpr (reach : Reach) (structs : Bool) : Parser Tree := do
  let p ← anyPath reach true
  let ts ← get
  if p.kind? == some .path && bangAhead ts && isPlainPath p then
    return .node .macroExpr [.noAttrs, ← macroCall reach p]
  else if structs && Ahead.group .brace ts then
    let body ← group .brace do
      let (fs, dots, rest) ← fieldValuesFuel reach ((← get).length + 1)
      return [.list fs, dots, rest]
    return .node .structExpr [.noAttrs, p, body]
  else return .node .pathExpr [.noAttrs, p]

/-- An expression in parentheses or a tuple. -/
def parenExpr (reach : Reach) : Parser Tree := do
  match ← get with
  | .group .paren o content c :: rest =>
    set rest
    match ← within content (commas (reach (.expr true))) with
    | .node .list [e] => return .node .parenExpr [.noAttrs, .group .paren o [e] c]
    | elems => return .node .tupleExpr [.noAttrs, .group .paren o [elems] c]
  | _ => refuse

/-- An array, given by its elements or by one element and a length. -/
def arrayExpr (reach : Reach) : Parser Tree := do
  match ← get with
  | .group .bracket o content c :: rest =>
    set rest
    let inner : Parser Tree := do
      if atEnd (← get) then return .node .arrayExpr [.noAttrs, .group .bracket o [.list []] c]
      let first ← reach (.expr true)
      if Ahead.symbol ";" (← get) then
        let semi ← symbol ";"
        return .node .repeatExpr [.noAttrs, .group .bracket o [first, semi, ← reach (.expr true)] c]
      else if atEnd (← get) then return .node .arrayExpr [.noAttrs, .group .bracket o [.list [first]] c]
      else
        let comma ← symbol ","
        let more ← commas (reach (.expr true))
        return .node .arrayExpr [.noAttrs, .group .bracket o [.list (first :: comma :: more.children)] c]
    within content inner
  | _ => refuse

/-- Whether an expression can start here. -/
def exprAhead (ts : List TokenTree) : Bool :=
  let plain (s : String) (not : List String) : Bool := Ahead.symbol s ts && !not.any (Ahead.symbol · ts)
  match ts with
  | [] => false
  | .ident t _ :: _ => t != "as"
  | .lifetime _ _ :: _ | .literal _ _ :: _ | .group _ _ _ _ :: _ => true
  | .punct _ _ _ :: _ =>
    plain "!" ["!="] || plain "-" ["-=", "->"] || plain "*" ["*="] || plain "|" ["|="] || plain "&" ["&="] ||
      plain ".." [] || plain "<" ["<=", "<<="] || plain "::" [] || plain "#" []

/-- A parameter of a closure. -/
def closureParam (reach : Reach) : Parser Tree := do
  let attrs ← outerAttrs reach
  let pat ← reach .pattern
  if Ahead.symbol ":" (← get) then
    let colon ← symbol ":"
    return .node .typePat [attrs, pat, colon, ← reach (.type true)]
  else return pat.addAttrs attrs

/-- A closure. -/
def closure (reach : Reach) (structs : Bool) : Parser Tree := do
  let lifetimes ← whenAhead (Ahead.word "for") (boundLifetimes reach)
  let c ← word? "const"
  let s ← word? "static"
  let a ← word? "async"
  let m ← word? "move"
  let or1 ← symbol "|"
  let params ← separated (Ahead.symbol "|") "," (closureParam reach)
  let or2 ← symbol "|"
  let output ← returnType reach true
  let inBraces : Parser Tree := do return .node .blockExpr [.noAttrs, .absent, ← reach (.block false)]
  let body ← if output.isPresent then inBraces else reach (.expr structs)
  return .node .closureExpr [.noAttrs, lifetimes, c, s, a, m, or1, params, or2, output, body]

/-- An `if` with its further branches. -/
def ifFuel (reach : Reach) : Nat → Parser Tree
  | 0 => refuse
  | fuel + 1 => do
    let i ← word "if"
    let cond ← reach (.expr false)
    let body ← reach (.block false)
    let other ← whenAhead (Ahead.word "else") do
      let e ← word "else"
      if Ahead.word "if" (← get) then return .node .elseBranch [e, ← ifFuel reach fuel]
      else return .node .elseBranch [e, .node .blockExpr [.noAttrs, .absent, ← reach (.block false)]]
    return .node .ifExpr [.noAttrs, i, cond, body, other]

/-- An `if`. -/
def ifExpr (reach : Reach) : Parser Tree := do ifFuel reach ((← get).length + 1)

/-- A `while`, after its label. -/
def whileExpr (reach : Reach) (label : Tree) : Parser Tree := do
  let w ← word "while"
  let cond ← reach (.expr false)
  return .node .whileExpr [.noAttrs, label, w, cond, ← reach (.block true)]

/-- A `for`, after its label. -/
def forExpr (reach : Reach) (label : Tree) : Parser Tree := do
  let f ← word "for"
  let pat ← alternatives reach
  let i ← word "in"
  let iterated ← reach (.expr false)
  return .node .forExpr [.noAttrs, label, f, pat, i, iterated, ← reach (.block true)]

/-- A `loop`, after its label. -/
def loopExpr (reach : Reach) (label : Tree) : Parser Tree := do
  let l ← word "loop"
  return .node .loopExpr [.noAttrs, label, l, ← reach (.block true)]

/-- Whether an expression ends a statement or a match arm without a mark after it. -/
def isBlockLike (e : Tree) : Bool :=
  match e.kind? with
  | some k => [Kind.ifExpr, .matchExpr, .blockExpr, .unsafeBlockExpr, .whileExpr, .loopExpr, .forExpr,
      .tryBlockExpr, .constExpr].contains k
  | none => false

/-- An arm of a `match`. -/
def arm (reach : Reach) : Parser Tree := do
  let attrs ← outerAttrs reach
  let pat ← alternatives reach
  let guard ← whenAhead (Ahead.word "if") do return .node .guard [← word "if", ← reach (.expr true)]
  let arrow ← symbol "=>"
  let body ← reach .earlyExpr
  let comma ← if isBlockLike body || atEnd (← get) then symbol? "," else symbol ","
  return .node .arm [attrs, pat, guard, arrow, body, comma]

/-- A `match`. -/
def matchExpr (reach : Reach) : Parser Tree := do
  let m ← word "match"
  let e ← reach (.expr false)
  let arms ← group .brace do
    let inner ← innerAttrs reach
    return [inner, .node .arms (← repeatWhile (!atEnd ·) (arm reach))]
  return .node .matchExpr [.noAttrs, m, e, arms]

/-- A block with a word in front. -/
def wordBlock (reach : Reach) (w : String) (kind : Kind) (inner : Bool) : Parser Tree := do
  let w ← word w
  return .node kind [.noAttrs, w, ← reach (.block inner)]

/-- A loop or block with a label. -/
def labeled (reach : Reach) : Parser Tree := do
  let l ← lifetime
  let label := Tree.node .label [l, ← symbol ":"]
  let ts ← get
  if Ahead.word "while" ts then whileExpr reach label
  else if Ahead.word "for" ts then forExpr reach label
  else if Ahead.word "loop" ts then loopExpr reach label
  else if Ahead.group .brace ts then return .node .blockExpr [.noAttrs, label, ← reach (.block true)]
  else expect "loop or block expression"

/-- Whether the parameters of a closure's `for<…>` come next. -/
def closureLifetimesAhead (ts : List TokenTree) : Bool := Ahead.word "for" ts && genericsAhead (ts.drop 1)

/-- Whether a closure comes next. -/
def closureAhead (ts : List TokenTree) : Bool :=
  let after := ts.drop 1
  Ahead.symbol "|" ts || Ahead.word "move" ts || closureLifetimesAhead ts ||
    (Ahead.word "const" ts && !Ahead.group .brace after) || Ahead.word "static" ts ||
    (Ahead.word "async" ts && (Ahead.symbol "|" after || Ahead.word "move" after))

/-- An expression that is no operator's. -/
def atom (reach : Reach) (structs : Bool) : Parser Tree := do
  let ts ← get
  let after := ts.drop 1
  if Ahead.literal ts then return .node .litExpr [.noAttrs, ← literal]
  else if Ahead.word "async" ts &&
      (Ahead.group .brace after || (Ahead.word "move" after && Ahead.group .brace (ts.drop 2))) then
    let a ← word "async"
    let m ← word? "move"
    return .node .asyncExpr [.noAttrs, a, m, ← reach (.block false)]
  else if Ahead.word "try" ts && Ahead.group .brace after then wordBlock reach "try" .tryBlockExpr false
  else if closureAhead ts then closure reach structs
  else if Ahead.word "builtin" ts && Ahead.symbol "#" after then
    let _ ← anyWord
    let _ ← symbol "#"
    let _ ← name
    if !Ahead.group .paren (← get) then refuse
    let _ ← anyGroup
    passed .verbatimExpr ts
  else if Ahead.name ts || Ahead.symbol "::" ts || Ahead.symbol "<" ts || Ahead.oneOf pathWords ts ||
      (Ahead.word "try" ts && (Ahead.symbol "!" after || Ahead.symbol "::" after)) then pathExpr reach structs
  else if Ahead.group .paren ts then parenExpr reach
  else if Ahead.word "break" ts then
    let b ← word "break"
    let l ← lifetime?
    -- a colon after the label makes it that of a loop, which would have to stand in parentheses
    if l.isPresent && Ahead.symbol ":" (← get) then
      set after
      let _ ← reach (.expr true)
      refuse
    let value (ts : List TokenTree) : Bool := exprAhead ts && (structs || !Ahead.group .brace ts)
    return .node .breakExpr [.noAttrs, b, l, ← whenAhead value (reach (.expr true))]
  else if Ahead.word "continue" ts then
    let c ← word "continue"
    return .node .continueExpr [.noAttrs, c, ← lifetime?]
  else if Ahead.word "return" ts then
    let r ← word "return"
    return .node .returnExpr [.noAttrs, r, ← whenAhead exprAhead (reach (.expr true))]
  else if Ahead.word "become" ts then
    let _ ← anyWord
    let _ ← reach (.expr true)
    passed .verbatimExpr ts
  else if Ahead.group .bracket ts then arrayExpr reach
  else if Ahead.word "let" ts then
    let l ← word "let"
    let pat ← alternatives reach
    let eq ← symbol "="
    let value ← reach (.unary structs)
    return .node .letExpr [.noAttrs, l, pat, eq, ← reach (.climb value structs .compare)]
  else if Ahead.word "if" ts then ifExpr reach
  else if Ahead.word "while" ts then whileExpr reach .absent
  else if Ahead.word "for" ts then forExpr reach .absent
  else if Ahead.word "loop" ts then loopExpr reach .absent
  else if Ahead.word "match" ts then matchExpr reach
  else if Ahead.word "yield" ts then
    let y ← word "yield"
    return .node .yieldExpr [.noAttrs, y, ← whenAhead exprAhead (reach (.expr true))]
  else if Ahead.word "unsafe" ts then wordBlock reach "unsafe" .unsafeBlockExpr true
  else if Ahead.word "const" ts then constBlock reach
  else if Ahead.group .brace ts then return .node .blockExpr [.noAttrs, .absent, ← reach (.block true)]
  else if Ahead.symbol ".." ts then
    let (limits, stop) ← rangeRest reach structs
    return .node .rangeExpr [.noAttrs, .absent, limits, stop]
  else if Ahead.word "_" ts then return .node .inferExpr [.noAttrs, ← anyWord]
  else if Ahead.lifetime ts then labeled reach
  else expect "an expression"

/-- An expression without binary operators. A form that is only passed through takes its attributes along. -/
def unary (reach : Reach) (structs : Bool) : Parser Tree := do
  let start ← get
  let attrs ← outerAttrs reach
  let ts ← get
  if Ahead.symbol "&" ts then
    let amp ← symbol "&"
    let ts ← get
    if Ahead.word "raw" ts && Ahead.oneOf ["mut", "const"] (ts.drop 1) then
      let raw ← anyWord
      let m ← anyWord
      return .node .rawAddrExpr [attrs, amp, raw, m, ← reach (.unary structs)]
    let m ← word? "mut"
    return .node .referenceExpr [attrs, amp, m, ← reach (.unary structs)]
  match ["*", "!", "-"].find? (Ahead.symbol · ts) with
  | some op =>
    let o ← symbol op
    return .node .unaryExpr [attrs, o, ← reach (.unary structs)]
  | none =>
    let e ← reach (.trailers (← atom reach structs))
    if e.kind? == some .verbatimExpr then return ← passed .verbatimExpr start
    if !attrs.attrList.isEmpty && e.kind? == some .rangeExpr then refuse
    return e.addAttrs attrs

/-- The block-like expression that comes next, if there is one. -/
def blockLike? (reach : Reach) : Parser (Option Tree) := do
  let ts ← get
  if Ahead.word "if" ts then return some (← ifExpr reach)
  else if Ahead.word "while" ts then return some (← whileExpr reach .absent)
  else if Ahead.word "for" ts && !closureLifetimesAhead ts then return some (← forExpr reach .absent)
  else if Ahead.word "loop" ts then return some (← loopExpr reach .absent)
  else if Ahead.word "match" ts then return some (← matchExpr reach)
  else if Ahead.word "try" ts && Ahead.group .brace (ts.drop 1) then
    return some (← wordBlock reach "try" .tryBlockExpr false)
  else if Ahead.word "unsafe" ts then return some (← wordBlock reach "unsafe" .unsafeBlockExpr true)
  else if Ahead.word "const" ts && Ahead.group .brace (ts.drop 1) then return some (← constBlock reach)
  else if Ahead.group .brace ts then return some (.node .blockExpr [.noAttrs, .absent, ← reach (.block true)])
  else if Ahead.lifetime ts then return some (← labeled reach)
  else return none

/-- A range with attributes is written in parentheses, which the attributes then stand in front of. -/
def closeRange : Tree → Tree
  | .node .rangeExpr (.node .attrs (a :: as) :: parts) =>
    .node .parenExpr [.node .attrs (a :: as), .group .paren Pos.none [.node .rangeExpr (.noAttrs :: parts)] Pos.none]
  | t => t

/-- An expression that ends at its closing brace if it is like a block and no method is called on it. -/
def earlyExpr (reach : Reach) : Parser Tree := do
  let attrs ← outerAttrs reach
  match ← blockLike? reach with
  | none => return closeRange (← reach (.climb ((← reach (.unary true)).addAttrs attrs) true .jump))
  | some e =>
    let ts ← get
    if dotAhead ts || Ahead.symbol "?" ts then
      reach (.climb ((← reach (.trailers e)).addAttrs attrs) true .jump)
    else return e.addAttrs attrs

/-- An expression. -/
def expr (reach : Reach) (structs : Bool) : Parser Tree := do
  reach (.climb (← reach (.unary structs)) structs .jump)

end CallProbe.Source.Parse
