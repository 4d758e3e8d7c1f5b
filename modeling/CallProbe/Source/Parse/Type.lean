import CallProbe.Source.Parse.Core

/-! # Parsing paths and types -/

namespace CallProbe.Source.Parse

/-! ### Order of generic arguments -/

/-- Elements paired with the separators after them. -/
def pairs : List Tree → List (Tree × Option Tree)
  | [] => []
  | [t] => [(t, none)]
  | t :: s :: rest => (t, some s) :: pairs rest

/-- Writes elements with their separators, adding a comma where one is missing between two. -/
def unpair : List (Tree × Option Tree) → List Tree
  | [] => []
  | [(t, none)] => [t]
  | [(t, some s)] => [t, s]
  | (t, s) :: rest => t :: s.getD (.leaf (.symbol "," Pos.none)) :: unpair rest

/-- Lifetimes are written before everything else. -/
def lifetimesFirst (kind : Kind) (ts : List Tree) : List Tree :=
  let isLifetime (p : Tree × Option Tree) : Bool := p.1.kind? == some kind
  unpair ((pairs ts).filter isLifetime ++ (pairs ts).filter (!isLifetime ·))

/-! ### Paths -/

/-- A value in place of a generic argument: a literal, a name or a block. -/
def constArgument (reach : Reach) : Parser Tree := do
  let ts ← get
  if Ahead.literal ts then return .node .litExpr [.noAttrs, ← literal]
  else if Ahead.name ts then
    return .node .pathExpr [.noAttrs, .node .path [.absent, .list [.node .segment [← name, .absent]]]]
  else if Ahead.group .brace ts then return .node .blockExpr [.noAttrs, .absent, ← reach (.block true)]
  else refuse

/-- The name and arguments of a type that is a single segment, as an associated type has them. -/
def singleSegment? : Tree → Option (Tree × Tree)
  | .node .pathType [.node .path [lead, .node .list [.node .segment [n, args]]]] =>
    if lead.isPresent || args.kind? == some .parenArgs then none else some (n, args)
  | _ => none

/-- Whether angle brackets hold parameters rather than a qualified type. -/
def genericsAhead (ts : List TokenTree) : Bool :=
  let after := ts.drop 1
  let later := ts.drop 2
  Ahead.symbol "<" ts &&
    (Ahead.symbol ">" after || Ahead.symbol "#" after || Ahead.word "const" after ||
      ((Ahead.lifetime after || Ahead.name after) &&
        (Ahead.symbol ">" later || Ahead.symbol "," later || Ahead.symbol "=" later ||
          (Ahead.symbol ":" later && !Ahead.symbol "::" later))))

/-- The parameters of a `for<…>`. -/
def boundLifetimes (reach : Reach) : Parser Tree := do
  let f ← word "for"
  let lt ← symbol "<"
  let params ← separated (Ahead.symbol ">") "," (reach .genericParam)
  return .node .boundLifetimes [f, lt, params, ← symbol ">"]

/-- The arguments of a function-like path: types in parentheses and a return type. -/
def parenArgs (reach : Reach) : Parser Tree := do
  let args ← group .paren do return [← commas (reach (.type true))]
  let output ← whenAhead (Ahead.symbol "->") do return .node .returnType [← symbol "->", ← reach (.type false)]
  return .node .parenArgs [args, output]

/-- Whether function-like arguments follow a path. -/
def parenArgsAhead (ts : List TokenTree) : Bool :=
  Ahead.group .paren ts || (Ahead.symbol "::" ts && Ahead.group .paren (ts.drop 2))

/-- The segments of a path node, last one first. -/
def segmentsReversed : Tree → List Tree
  | .node .path [_, .node .list ts] => ts.reverse
  | .node .qualifiedPath [_, _, _, _, _, _, .node .list ts] => ts.reverse
  | _ => []

/-- Whether the last segment of a path has no arguments. -/
def lastIsBare (path : Tree) : Bool :=
  match segmentsReversed path with
  | .node .segment [_, args] :: _ => !args.isPresent
  | _ => false

/-- Replaces the segments of a path. -/
def withSegments (ts : List Tree) : Tree → Tree
  | .node .path [lead, _] => .node .path [lead, .list ts]
  | .node .qualifiedPath [a, b, c, d, e, f, _] => .node .qualifiedPath [a, b, c, d, e, f, .list ts]
  | t => t

/-- Gives the last segment of a path its arguments. -/
def withLastArgs (args path : Tree) : Tree :=
  match segmentsReversed path with
  | .node .segment [n, _] :: before => withSegments (.node .segment [n, args] :: before).reverse path
  | _ => path

/-- Where bounds stand, which decides about their forms. -/
inductive BoundPlace where
  /-- On a parameter, a predicate, an associated type or a trait. -/
  | declared
  /-- After `impl`. -/
  | anonymous
  /-- In the type of an object, or in an alias for bounds. -/
  | object
deriving DecidableEq

/-- Whether a bound may ask for an implementation that is evaluated at compile time. -/
def BoundPlace.allowsConst (place : BoundPlace) : Bool := place != .object

/-- A trait as a bound, or nothing if it asks for an implementation that is evaluated at compile time. -/
def traitBound (reach : Reach) (place : BoundPlace) : Parser (Option Tree) := do
  let early ← whenAhead (Ahead.word "for") (boundLifetimes reach)
  let ts ← get
  let maybeConst := Ahead.group .bracket ts
  let isConst := maybeConst || Ahead.word "const" ts
  if isConst && !place.allowsConst then refuse
  let _ ← partWhen maybeConst (group .bracket do return [← word "const"])
  let _ ← partWhen (isConst && !maybeConst) (word "const")
  let modifier ← symbol? "?"
  if modifier.isPresent && (early.isPresent || Ahead.word "for" (← get)) then refuse
  let p ← reach .typePath
  let args ← whenAhead (fun ts => lastIsBare p && parenArgsAhead ts) do
    let _ ← symbol? "::"
    parenArgs reach
  let p := if args.isPresent then withLastArgs args p else p
  return if isConst then none else some (.node .traitBound [early, modifier, p])

/-- A bound. -/
def bound (reach : Reach) (place : BoundPlace) : Parser Tree := do
  let ts ← get
  if Ahead.lifetime ts then return .node .lifetimeBound [← lifetime]
  else if Ahead.word "use" ts then
    if place != .anonymous then refuse
    let u ← word "use"
    let lt ← symbol "<"
    let param : Parser Tree := do
      let ts ← get
      if Ahead.lifetime ts then lifetime else if Ahead.word "Self" ts then anyWord else name
    let params ← separated (Ahead.symbol ">") "," param
    return .node .captureBound [u, lt, params, ← symbol ">"]
  else match ts with
    | .group .paren o content c :: rest =>
      set rest
      match ← within content (traitBound reach place) with
      | some b => return .node .parenBound [.group .paren o [b] c]
      | none => passed .verbatimBound ts
    | _ =>
      match ← traitBound reach place with
      | some b => return b
      | none => passed .verbatimBound ts

/-- Whether a bound may follow a plus sign. -/
def BoundPlace.boundAhead (place : BoundPlace) (ts : List TokenTree) : Bool :=
  Ahead.anyWord ts || Ahead.symbol "::" ts || Ahead.symbol "?" ts || Ahead.lifetime ts || Ahead.group .paren ts ||
    (place.allowsConst && Ahead.group .bracket ts)

/-- Bounds that go on with plus signs. Where `strict`, each plus sign has a bound after it; otherwise the last
    one may have none. -/
def moreBoundsFuel (reach : Reach) (place : BoundPlace) (strict : Bool) : Nat → Parser (List Tree)
  | 0 => return []
  | fuel + 1 => do
    if !Ahead.symbol "+" (← get) then return []
    let plus ← symbol "+"
    if strict || place.boundAhead (← get) then
      let b ← bound reach place
      return plus :: b :: (← moreBoundsFuel reach place strict fuel)
    else return [plus]

/-- Bounds that go on with plus signs after a first one. -/
def boundsAfter (reach : Reach) (place : BoundPlace) (strict : Bool) (first : Tree) : Parser Tree := do
  return .list (first :: (← moreBoundsFuel reach place strict ((← get).length + 1)))

/-- A bound, and more of them after plus signs where `plus` allows it. -/
def bounds (reach : Reach) (place : BoundPlace) (plus : Bool) : Parser Tree := do
  let first ← bound reach place
  if plus then boundsAfter reach place false first else return .list [first]

/-- Whether bounds name a trait, as those of a type must. -/
def nameTrait (bounds : Tree) : Bool :=
  bounds.elements.any fun b => match b.kind? with
    | some .traitBound | some .parenBound | some .verbatimBound => true
    | _ => false

/-- A generic argument. -/
def genericArg (reach : Reach) : Parser Tree := do
  let ts ← get
  if Ahead.lifetime ts && !Ahead.symbol "+" (ts.drop 1) then return .node .lifetimeArg [← lifetime]
  if Ahead.literal ts || Ahead.group .brace ts then return .node .constArg [← constArgument reach]
  let ty ← reach (.type true)
  match singleSegment? ty with
  | none => return .node .typeArg [ty]
  | some (n, args) =>
    if Ahead.symbol "=" (← get) then
      let eq ← symbol "="
      let ts ← get
      if Ahead.literal ts || Ahead.group .brace ts then
        return .node .assocConstArg [n, args, eq, ← constArgument reach]
      else return .node .assocTypeArg [n, args, eq, ← reach (.type true)]
    else if Ahead.symbol ":" (← get) then
      let colon ← symbol ":"
      let stop (ts : List TokenTree) : Bool := Ahead.symbol "," ts || Ahead.symbol ">" ts
      return .node .constraintArg [n, args, colon, ← joined stop "+" (bound reach .declared)]
    else return .node .typeArg [ty]

/-- Generic arguments in angle brackets. -/
def angleArgs (reach : Reach) : Parser Tree := do
  let colons ← symbol? "::"
  let lt ← symbol "<"
  let args ← separated (Ahead.symbol ">") "," (genericArg reach)
  let gt ← symbol ">"
  return .node .angleArgs [colons, lt, .list (lifetimesFirst .lifetimeArg args.children), gt]

/-- A segment of a path. In an expression, arguments need the two colons in front. -/
def segmentWith (args : Parser Tree) (inExpr : Bool) : Parser Tree := do
  let ts ← get
  if Ahead.oneOf ["super", "self", "crate", "try"] ts then return .node .segment [← anyWord, .absent]
  let n ← if Ahead.word "Self" ts then anyWord else name
  let ts ← get
  if (!inExpr && Ahead.symbol "<" ts && !Ahead.symbol "<=" ts && !Ahead.symbol "<<=" ts) ||
      (Ahead.symbol "::" ts && Ahead.symbol "<" (ts.drop 2)) then
    return .node .segment [n, ← args]
  else return .node .segment [n, .absent]

/-- The further segments of a path. -/
def moreSegments (segment : Parser Tree) : Parser (List Tree) := do
  let more (ts : List TokenTree) : Bool := Ahead.symbol "::" ts && !Ahead.group .paren (ts.drop 2)
  return (← repeatWhile more do return [← symbol "::", ← segment]).flatten

/-- A path of the segments that a parser reads. -/
def pathWith (segment : Parser Tree) : Parser Tree := do
  let lead ← symbol? "::"
  let first ← segment
  return .node .path [lead, .list (first :: (← moreSegments segment))]

/-- A segment of a path. -/
def segment (reach : Reach) (inExpr : Bool) : Parser Tree := segmentWith (angleArgs reach) inExpr

/-- A path without a qualified type. -/
def path (reach : Reach) (inExpr : Bool) : Parser Tree := pathWith (segment reach inExpr)

/-- A path that may start at a qualified type. -/
def anyPath (reach : Reach) (inExpr : Bool) : Parser Tree := do
  if Ahead.symbol "<" (← get) then
    let lt ← symbol "<"
    let ty ← reach (.type true)
    let as_ ← word? "as"
    let inner ← partWhen as_.isPresent (path reach false)
    let gt ← symbol ">"
    let colons ← symbol "::"
    let first ← segment reach inExpr
    let rest ← repeatWhile (Ahead.symbol "::") do return [← symbol "::", ← segment reach inExpr]
    return .node .qualifiedPath [lt, ty, as_, inner, gt, colons, .list (first :: rest.flatten)]
  else path reach inExpr

/-! ### Types -/

/-- The type after `->`, if one is given. -/
def returnType (reach : Reach) (plus : Bool) : Parser Tree :=
  whenAhead (Ahead.symbol "->") do return .node .returnType [← symbol "->", ← reach (.type plus)]

/-- The name of a calling convention. -/
def abi : Parser Tree := do
  let e ← word "extern"
  return .node .abi [e, ← whenAhead Ahead.stringLiteral literal]

/-- Whether a path is made of names only. -/
def isPlainPath : Tree → Bool
  | .node .path [_, segments] => segments.elements.all fun s => match s with
    | .node .segment [_, args] => !args.isPresent
    | _ => false
  | _ => false

/-- The name of a parameter of a function type and its colon, if there are any. -/
def paramName (self : Bool) : Parser (Tree × Tree) := do
  let ts ← get
  let named := (Ahead.name ts || Ahead.word "_" ts || (self && Ahead.word "self" ts)) &&
    Ahead.symbol ":" (ts.drop 1) && !Ahead.symbol "::" (ts.drop 1)
  if named then return (← anyWord, ← symbol ":") else return (.absent, .absent)

/-- Whether a receiver that may be changed comes next. -/
def mutSelfAhead (ts : List TokenTree) : Bool := Ahead.word "mut" ts && Ahead.word "self" (ts.drop 1)

/-- A parameter of a function type, after its attributes. The first one may be a receiver; one that may be
    changed is only passed through. -/
def fnTypeParam (reach : Reach) (first : Bool) (attrs : Tree) : Parser Tree := do
  let start ← get
  let mutSelf := first && mutSelfAhead start
  let _ ← partWhen mutSelf (word "mut")
  let (n, colon) ← paramName first
  let named := n.isPresent
  let verbatim : Parser Tree := do
    return .node .fnTypeParam [attrs, .absent, .absent, ← passed .verbatimType start]
  if first && n.text != "self" && mutSelfAhead (← get) then
    let _ ← word "mut"
    let _ ← word "self"
    verbatim
  else if mutSelf && !named then
    let _ ← word "self"
    verbatim
  else
    let ty ← reach (.type true)
    if mutSelf then verbatim else return .node .fnTypeParam [attrs, n, colon, ty]

/-- Whether a variadic parameter of a function type comes next. -/
def variadicAhead (ts : List TokenTree) : Bool :=
  Ahead.symbol "..." ts ||
    ((Ahead.name ts || Ahead.word "_" ts) && Ahead.symbol ":" (ts.drop 1) && Ahead.symbol "..." (ts.drop 2))

/-- The parameters of a function type. A variadic one is the last, maybe with a comma after it. -/
def fnTypeParamsFuel (reach : Reach) (first : Bool) : Nat → Parser (List Tree)
  | 0 => return []
  | fuel + 1 => do
    if atEnd (← get) then return []
    let attrs ← outerAttrs reach
    if variadicAhead (← get) then
      let (n, colon) ← paramName false
      let v := Tree.node .variadic [attrs, n, colon, ← symbol "...", .absent]
      let comma ← symbol? ","
      return if comma.isPresent then [v, comma] else [v]
    let p ← fnTypeParam reach first attrs
    if atEnd (← get) then return [p]
    let comma ← symbol ","
    return p :: comma :: (← fnTypeParamsFuel reach false fuel)

/-- A function type after its lifetimes. -/
def fnType (reach : Reach) (lifetimes : Tree) : Parser Tree := do
  let danger ← word? "unsafe"
  let abi ← whenAhead (Ahead.word "extern") abi
  let f ← word "fn"
  let params ← group .paren do return [.list (← fnTypeParamsFuel reach true ((← get).length + 1))]
  return .node .fnType [lifetimes, danger, abi, f, params, ← returnType reach false]

/-- A bound made of the inside of parentheses, where a type in them can be one. Parentheses around
    parentheses count once. -/
def asBound? (o c : Pos) : Tree → Option Tree
  | .node .pathType [.node .path cs] =>
    some (.node .parenBound [.group .paren o [.node .traitBound [.absent, .absent, .node .path cs]] c])
  | .node .traitObjectType [.node .absent _, .node .list [.node .traitBound cs]] =>
    some (.node .parenBound [.group .paren o [.node .traitBound cs] c])
  | .node .traitObjectType [.node .absent _, .node .list [.node .parenBound [.group _ _ [b] _]]] =>
    some (.node .parenBound [.group .paren o [b] c])
  | _ => none

/-- The type of an object whose first bound stands in parentheses. -/
def objectAfter (reach : Reach) (first : Tree) : Parser Tree := do
  return .node .traitObjectType [.absent, ← boundsAfter reach .object true first]

/-- A type in parentheses, a tuple type, or the first of several bounds. -/
def parenType (reach : Reach) (plus : Bool) : Parser Tree := do
  match ← get with
  | .group .paren o content c :: rest =>
    set rest
    if content.isEmpty then return .node .tupleType [.group .paren o [.list []] c]
    if Ahead.lifetime content then
      return .node .parenType [.group .paren o [← within content (reach (.type true))] c]
    if Ahead.symbol "?" content then
      match ← within content (traitBound reach .object) with
      | some b => return ← objectAfter reach (.node .parenBound [.group .paren o [b] c])
      | none => refuse
    let elems ← within content (commas (reach (.type true)))
    match elems with
    | .node .list [first] =>
      if plus && Ahead.symbol "+" (← get) then
        match asBound? o c first with
        | some b => return ← objectAfter reach b
        | none => return .node .parenType [.group .paren o [first] c]
      else return .node .parenType [.group .paren o [first] c]
    | _ => return .node .tupleType [.group .paren o [elems] c]
  | _ => refuse

/-- A type that is a path, a macro call, or the first of several bounds. -/
def pathType (reach : Reach) (plus : Bool) (lifetimes : Tree) : Parser Tree := do
  let p ← anyPath reach false
  if p.kind? == some .qualifiedPath then return .node .pathType [p]
  let ts ← get
  if Ahead.symbol "!" ts && !Ahead.symbol "!=" ts && isPlainPath p then
    let bang ← symbol "!"
    let (d, o, content, c) ← anyGroup
    return .node .macroType [.node .macroCall [p, bang, .group d o [.tokens content] c]]
  if lifetimes.isPresent || (plus && Ahead.symbol "+" ts) then
    let first := Tree.node .traitBound [lifetimes, .absent, p]
    let bs ← if plus then boundsAfter reach .object false first else pure (.list [first])
    return .node .traitObjectType [.absent, bs]
  else return .node .pathType [p]

/-- Words that open a path and are no names. -/
def pathWords : List String := ["super", "self", "Self", "crate"]

/-- A type. -/
def type (reach : Reach) (plus : Bool) : Parser Tree := do
  let lifetimes ← whenAhead (Ahead.word "for") (boundLifetimes reach)
  let ts ← get
  if lifetimes.isPresent &&
      !(Ahead.name ts || Ahead.oneOf ("fn" :: "unsafe" :: "extern" :: pathWords) ts) then refuse
  if Ahead.group .paren ts then parenType reach plus
  else if Ahead.oneOf ["fn", "unsafe", "extern"] ts then fnType reach lifetimes
  else if Ahead.name ts || Ahead.oneOf pathWords ts || Ahead.symbol "::" ts || Ahead.symbol "<" ts then
    pathType reach plus lifetimes
  else if Ahead.word "dyn" ts then
    let d ← word "dyn"
    let star ← symbol? "*"
    let bs ← bounds reach .object plus
    if !nameTrait bs then refuse
    else if star.isPresent then passed .verbatimType ts
    else return .node .traitObjectType [d, bs]
  else if Ahead.group .bracket ts then
    match ← get with
    | .group .bracket o content c :: rest =>
      set rest
      let inner : Parser Tree := do
        let elem ← reach (.type true)
        if Ahead.symbol ";" (← get) then
          return .node .arrayType [.group .bracket o [elem, ← symbol ";", ← reach (.expr true)] c]
        else return .node .sliceType [.group .bracket o [elem] c]
      within content inner
    | _ => refuse
  else if Ahead.symbol "*" ts then
    let star ← symbol "*"
    let m ← if Ahead.word "const" (← get) then word "const" else word "mut"
    return .node .pointerType [star, m, ← reach (.type false)]
  else if Ahead.symbol "&" ts then
    let amp ← symbol "&"
    let l ← lifetime?
    let m ← word? "mut"
    return .node .referenceType [amp, l, m, ← reach (.type false)]
  else if Ahead.symbol "!" ts then return .node .neverType [← symbol "!"]
  else if Ahead.word "impl" ts then
    let i ← word "impl"
    let bs ← bounds reach .anonymous plus
    if nameTrait bs then return .node .implType [i, bs] else refuse
  else if Ahead.word "_" ts then return .node .inferType [← anyWord]
  else if Ahead.lifetime ts then
    let bs ← bounds reach .object true
    if nameTrait bs then return .node .traitObjectType [.absent, bs] else refuse
  else refuse

end CallProbe.Source.Parse
