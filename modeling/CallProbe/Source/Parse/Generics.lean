import CallProbe.Source.Parse.Type

/-! # Parsing generics, visibility and signatures

Parts that would be written with nothing in them — `<>`, a colon without bounds, a `where` without
predicates — are left out of the tree. -/

namespace CallProbe.Source.Parse

/-- A colon and the bounds after it, both left out if there are none. -/
def colonBounds (stop : List TokenTree → Bool) (one : Parser Tree) : Parser (Tree × Tree) := do
  let colon ← symbol? ":"
  if !colon.isPresent then return (.absent, .list [])
  let bs ← joined stop "+" one
  return if bs.children.isEmpty then (.absent, .list []) else (colon, bs)

/-- A parameter in angle brackets, after its attributes. -/
def paramAfter (reach : Reach) (attrs : Tree) : Parser Tree := do
  let ts ← get
  if Ahead.lifetime ts then
    let l ← lifetime
    let stop (ts : List TokenTree) : Bool := Ahead.symbol "," ts || Ahead.symbol ">" ts
    let (colon, bs) ← colonBounds stop lifetime
    return .node .lifetimeParam [attrs, l, colon, bs]
  else if Ahead.word "const" ts then
    let c ← word "const"
    let n ← name
    let colon ← symbol ":"
    let ty ← reach (.type true)
    let eq ← symbol? "="
    return .node .constParam [attrs, c, n, colon, ty, eq, ← partWhen eq.isPresent (constArgument reach)]
  else
    let n ← name
    let stop (ts : List TokenTree) : Bool :=
      Ahead.symbol "," ts || Ahead.symbol ">" ts || Ahead.symbol "=" ts
    let (colon, bs) ← colonBounds stop (bound reach .declared)
    let eq ← symbol? "="
    return .node .typeParam [attrs, n, colon, bs, eq, ← partWhen eq.isPresent (reach (.type true))]

/-- A parameter in angle brackets. -/
def genericParam (reach : Reach) : Parser Tree := do paramAfter reach (← outerAttrs reach)

/-- A parameter of an item. It may have no name. -/
def itemParam (reach : Reach) : Parser Tree := do
  let attrs ← outerAttrs reach
  if Ahead.word "_" (← get) then
    return .node .typeParam [attrs, ← anyWord, .absent, .list [], .absent, .absent]
  else paramAfter reach attrs

/-- Parameters in angle brackets, lifetimes first. -/
def generics (reach : Reach) : Parser Tree := whenAhead (Ahead.symbol "<") do
  let lt ← symbol "<"
  let params ← separated (Ahead.symbol ">") "," (itemParam reach)
  let gt ← symbol ">"
  if params.children.isEmpty then return .absent
  return .node .generics [lt, .list (lifetimesFirst .lifetimeParam params.children), gt]

/-- Whether a where clause, or the bounds in it, end here. -/
def whereStop (ts : List TokenTree) : Bool :=
  ts.isEmpty || Ahead.group .brace ts || Ahead.symbol "," ts || Ahead.symbol ";" ts ||
    (Ahead.symbol ":" ts && !Ahead.symbol "::" ts) || Ahead.symbol "=" ts

/-- A predicate of a where clause. -/
def wherePredicate (reach : Reach) : Parser Tree := do
  let ts ← get
  if Ahead.lifetime ts && Ahead.symbol ":" (ts.drop 1) then
    let l ← lifetime
    let colon ← symbol ":"
    return .node .lifetimePredicate [l, colon, ← joined whereStop "+" lifetime]
  else
    let lifetimes ← whenAhead (Ahead.word "for") (boundLifetimes reach)
    let ty ← reach (.type true)
    let colon ← symbol ":"
    return .node .typePredicate [lifetimes, ty, colon, ← joined whereStop "+" (bound reach .declared)]

/-- A where clause, if there is one. -/
def whereClause (reach : Reach) : Parser Tree := whenAhead (Ahead.word "where") do
  let w ← word "where"
  if genericsAhead (← get) then refuse
  let ps ← joined whereStop "," (wherePredicate reach)
  return if ps.children.isEmpty then .absent else .node .whereClause [w, ps]

/-- Visibility. -/
def visibility : Parser Tree := whenAhead (Ahead.word "pub") do
  let p ← word "pub"
  match ← get with
  | .group .paren o content c :: rest =>
    if Ahead.oneOf ["crate", "self", "super"] content then
      match content with
      | [.ident t q] =>
        set rest
        return .node .restrictedVis [p, .group .paren o [.leaf (.word t q)] c]
      | _ => return .node .publicVis [p]
    else if Ahead.word "in" content then
      let inside ← within content do return [← word "in", ← plainPath]
      set rest
      return .node .restrictedVis [p, .group .paren o inside c]
    else return .node .publicVis [p]
  | _ => return .node .publicVis [p]

/-- The receiver of a method, after its attributes. -/
def receiver (attrs : Tree) (reach : Reach) : Parser Tree := do
  let ref ← whenAhead (Ahead.symbol "&") do return .node .receiverRef [← symbol "&", ← lifetime?]
  let m ← word? "mut"
  let s ← word "self"
  let colon ← partWhen (!ref.isPresent) (symbol? ":")
  return .node .receiver [attrs, ref, m, s, colon, ← partWhen colon.isPresent (reach (.type true))]

/-- Whether a receiver comes next. -/
def receiverAhead (ts : List TokenTree) : Bool :=
  let ts := if !Ahead.symbol "&" ts then ts else if Ahead.lifetime (ts.drop 1) then ts.drop 2 else ts.drop 1
  let ts := if Ahead.word "mut" ts then ts.drop 1 else ts
  Ahead.word "self" ts && !Ahead.symbol "::" (ts.drop 1)

/-- A parameter of a function. -/
def fnParam (reach : Reach) : Parser Tree := do
  let attrs ← outerAttrs reach
  if Ahead.symbol "..." (← get) then
    return .node .variadic [attrs, .absent, .absent, ← symbol "...", .absent]
  let ts ← get
  if receiverAhead ts then receiver attrs reach
  else if Ahead.name ts && Ahead.symbol "<" (ts.drop 1) then
    let p := startOf ts
    let wild := Tree.node .wildPat [.noAttrs, .leaf (.word "_" p)]
    return .node .typePat [attrs, wild, .leaf (.symbol ":" p), ← reach (.type true)]
  else
    let pat ← reach .pattern
    let colon ← symbol ":"
    if Ahead.symbol "..." (← get) then
      return .node .variadic [attrs, pat, colon, ← symbol "...", .absent]
    return .node .typePat [attrs, pat, colon, ← reach (.type true)]

/-- Whether parameters are in order: a receiver only first, a variadic one only last. -/
def paramsInOrder (params : List Tree) : Bool :=
  (params.drop 1).all (·.kind? != some .receiver) && params.dropLast.all (·.kind? != some .variadic)

/-- The signature of a function, and whether it is declared to be safe, which only `safe` allows. -/
def signatureWith (reach : Reach) (safe : Bool) : Parser (Tree × Bool) := do
  let c ← word? "const"
  let a ← word? "async"
  let u ← word? "unsafe"
  let s ← partWhen (safe && !u.isPresent) (word? "safe")
  let abi ← whenAhead (Ahead.word "extern") abi
  let f ← word "fn"
  let n ← name
  let gs ← generics reach
  let params ← group .paren do return [← commas (fnParam reach)]
  let inOrder : Bool := match params with
    | .group _ _ [ps] _ => paramsInOrder ps.elements
    | _ => false
  if !inOrder then refuse
  let output ← returnType reach true
  return (.node .signature [c, a, u, abi, f, n, gs, params, output, ← whereClause reach], s.isPresent)

/-- The signature of a function. -/
def signature (reach : Reach) : Parser Tree := do return (← signatureWith reach false).1

/-- Whether a signature starts here; `safe` says whether it may be declared to be safe. -/
def signatureAhead (safe : Bool) (ts : List TokenTree) : Bool :=
  let skip (w : String) (ts : List TokenTree) : List TokenTree := if Ahead.word w ts then ts.drop 1 else ts
  let ts := skip "async" (skip "const" ts)
  let ts := if safe && Ahead.word "safe" ts then ts.drop 1 else skip "unsafe" ts
  let ts := if Ahead.word "extern" ts
    then (if Ahead.stringLiteral (ts.drop 1) then ts.drop 2 else ts.drop 1)
    else ts
  Ahead.word "fn" ts

end CallProbe.Source.Parse
