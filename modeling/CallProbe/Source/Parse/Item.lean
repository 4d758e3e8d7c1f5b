import CallProbe.Source.Parse.Expr
import CallProbe.Source.Parse.Generics

/-! # Parsing statements and items

Forms that are allowed by the grammar and have no meaning of their own, such as a function without a body
outside a trait, are kept as tokens. -/

namespace CallProbe.Source.Parse

/-! ### Statements -/

/-- Whether the last part of a tree stands in braces, or nothing for a tree without tokens. Parentheses around a
    bound are looked through. -/
def bracesLast? : Tree → Option Bool
  | .leaf _ => some false
  | .tokens ts | .arguments ts _ => ts.getLast?.map fun
    | .group .brace _ _ _ => true
    | _ => false
  | .group d _ _ _ => some (d = .brace)
  | .node .parenBound [.group _ _ [b] _] => bracesLast? b
  | .node _ cs => bracesLastOf? cs
where
  bracesLastOf? : List Tree → Option Bool
    | [] => none
    | t :: ts => bracesLastOf? ts <|> bracesLast? t

/-- Whether a tree ends in a part in braces. -/
def endsInBrace (t : Tree) : Bool := bracesLast? t == some true

/-- Whether a macro call has its arguments in braces. -/
def isBraceCall : Tree → Bool
  | .node .macroCall [_, _, .group .brace _ _ _] => true
  | _ => false

/-- Puts attributes on the first operand of a chain of operators. -/
def attrsToFirst (attrs : Tree) : Tree → Tree
  | .node .assignExpr [a, left, op, right] => .node .assignExpr [a, attrsToFirst attrs left, op, right]
  | .node .binaryExpr [a, left, op, right] => .node .binaryExpr [a, attrsToFirst attrs left, op, right]
  | .node .castExpr [a, value, op, ty] => .node .castExpr [a, attrsToFirst attrs value, op, ty]
  | t => t.addAttrs attrs

/-- A `let`, after its attributes. -/
def letStmt (reach : Reach) (attrs : Tree) : Parser Tree := do
  let l ← word "let"
  let pat ← reach .pattern
  let typed : Parser Tree := do
    let colon ← symbol ":"
    return .node .typePat [.noAttrs, pat, colon, ← reach (.type true)]
  let pat ← if Ahead.symbol ":" (← get) then typed else pure pat
  let init ← whenAhead (Ahead.symbol "=") do
    let eq ← symbol "="
    let value ← reach (.expr true)
    let other ← whenAhead (fun ts => Ahead.word "else" ts && !endsInBrace value) do
      let e ← word "else"
      return .node .elseBranch [e, .node .blockExpr [.noAttrs, .absent, ← reach (.block false)]]
    return .node .letInit [eq, value, other]
  return .node .letStmt [attrs, l, pat, init, ← symbol ";"]

/-- An expression as a statement, after its attributes. -/
def exprStmt (reach : Reach) (attrs : Tree) : Parser Tree := do
  let e := closeRange (attrsToFirst attrs (← reach .earlyExpr))
  let semi ← symbol? ";"
  match e with
  | .node .macroExpr [own, call] =>
    if semi.isPresent || isBraceCall call then return .node .macroStmt [own, call, semi]
    else return .node .exprStmt [e, semi]
  | _ => return .node .exprStmt [e, semi]

/-- What a path and a bang at the start of a statement open. -/
inductive PathStart where
  | item
  | bracedMacro
  | other

/-- Looks for a path and a bang at the start of a statement. -/
def pathStart (ts : List TokenTree) : PathStart :=
  match plainPath ts with
  | .ok (_, rest) =>
    if Ahead.symbol "!" rest then
      let after := rest.drop 1
      if Ahead.name after || Ahead.word "try" after then .item
      else if Ahead.group .brace after && !(dotAhead (after.drop 1) || Ahead.symbol "?" (after.drop 1)) then
        .bracedMacro
      else .other
    else .other
  | .error _ => .other

/-- Whether an item starts here rather than an expression. -/
def itemAhead (ts : List TokenTree) : Bool :=
  let after := ts.drop 1
  let later := ts.drop 2
  let word (w : String) : Bool := Ahead.word w ts
  word "pub" || (word "crate" && !Ahead.symbol "::" after) || word "extern" || word "use" ||
    (word "static" && (Ahead.word "mut" after || Ahead.name after)) ||
    (word "const" && !(Ahead.group .brace after || Ahead.word "static" after ||
      (Ahead.word "async" after && !Ahead.oneOf ["unsafe", "extern", "fn"] later) ||
      Ahead.word "move" after || Ahead.symbol "|" after)) ||
    (word "unsafe" && !Ahead.group .brace after) ||
    (word "async" && Ahead.oneOf ["unsafe", "extern", "fn"] after) ||
    Ahead.oneOf ["fn", "mod", "type", "struct", "enum", "trait", "impl", "macro"] ts ||
    (word "union" && Ahead.name after) || (word "auto" && Ahead.word "trait" after) ||
    (word "default" && Ahead.oneOf ["unsafe", "impl"] after)

/-- An item as a statement, from its attributes on. -/
def itemStmt (reach : Reach) (start : List TokenTree) : Parser Tree := do
  set start
  return .node .itemStmt [← reach .item]

/-- A statement. -/
def stmt (reach : Reach) : Parser Tree := do
  let start ← get
  let attrs ← outerAttrs reach
  let ts ← get
  match pathStart ts with
  | .item => itemStmt reach start
  | .bracedMacro =>
    let path ← plainPath
    let call ← macroCall reach path
    return .node .macroStmt [attrs, call, ← symbol? ";"]
  | .other =>
    if Ahead.word "let" ts then letStmt reach attrs
    else if itemAhead ts then itemStmt reach start
    else exprStmt reach attrs

/-- Whether a statement must be the last one of its block. -/
def mustBeLast : Tree → Bool
  | .node .exprStmt [e, semi] => !semi.isPresent && !isBlockLike e
  | .node .macroStmt [_, call, semi] => !semi.isPresent && !isBraceCall call
  | _ => false

/-- The statements of a block. -/
def stmtsFuel (reach : Reach) : Nat → Parser (List Tree)
  | 0 => refuse
  | fuel + 1 => do
    let ts ← get
    if atEnd ts then return []
    if Ahead.symbol ";" ts then
      let semi ← symbol ";"
      return .node .exprStmt [.node .emptyExpr [], semi] :: (← stmtsFuel reach fuel)
    let s ← reach .stmt
    if mustBeLast s && !atEnd (← get) then refuse
    return s :: (← stmtsFuel reach fuel)

/-- The inside of a block. -/
def blockContent (reach : Reach) (inner : Bool) : Parser (List Tree) := do
  let attrs ← if inner then innerAttrs reach else pure .noAttrs
  return [attrs, .node .stmts (← stmtsFuel reach ((← get).length + 1))]

/-- A block in braces. -/
def block (reach : Reach) (inner : Bool) : Parser Tree := do
  return .node .block [← group .brace (blockContent reach inner)]

/-! ### Items -/

/-- A body of items in braces. -/
def itemsBody (reach : Reach) (item : Parser Tree) : Parser Tree := group .brace do
  let inner ← innerAttrs reach
  return [inner, .node .items (← repeatWhile (!atEnd ·) item)]

/-- A name or `_`. -/
def nameOrBlank : Parser Tree := do if Ahead.word "_" (← get) then anyWord else name

/-- What a `use` brings in. -/
def useTree (reach : Reach) (root : Bool) : Parser Tree := do
  let ts ← get
  if Ahead.name ts || Ahead.oneOf ["self", "super", "crate", "try"] ts then
    let n ← anyWord
    if Ahead.symbol "::" (← get) then
      let colons ← symbol "::"
      return .node .usePath [n, colons, ← reach (.useTree false)]
    else if Ahead.word "as" (← get) then
      let as_ ← word "as"
      return .node .useRename [n, as_, ← nameOrBlank]
    else return .node .useName [n]
  else if Ahead.symbol "*" ts then return .node .useGlob [← symbol "*"]
  else if Ahead.group .brace ts then
    let one : Parser Tree := do
      let lead ← partWhen root (symbol? "::")
      let t ← reach (.useTree (root && !lead.isPresent))
      return if lead.isPresent then .node .verbatimItem [lead, t] else t
    return .node .useGroup [← group .brace do return [← commas one]]
  else refuse

/-- Whether a `use` starts at the crate root somewhere inside its braces. -/
def hasInnerRoot : Tree → Bool
  | .node .verbatimItem _ => true
  | .node .useGroup [.group _ _ [.node .list ts] _] => anyInnerRoot ts
  | _ => false
where
  anyInnerRoot : List Tree → Bool
    | [] => false
    | t :: ts => hasInnerRoot t || anyInnerRoot ts

/-- An item or member that is only passed through, given where it starts. -/
def passedThrough (start : List TokenTree) : Parser Tree := passed .verbatimItem start

/-- Fields of a struct that has no name of its own come next. -/
def unnamedStructAhead (ts : List TokenTree) : Bool :=
  Ahead.word "struct" ts || (Ahead.word "union" ts && Ahead.group .brace (ts.drop 1))

/-- A named field. A field without a name may have fields in place of its type; `fuel` bounds how deep. -/
def namedFieldFuel (reach : Reach) : Nat → Parser Tree
  | 0 => refuse
  | fuel + 1 => do
    let attrs ← outerAttrs reach
    let vis ← visibility
    let n ← nameOrBlank
    let colon ← symbol ":"
    let start ← get
    if n.text == "_" && unnamedStructAhead start then
      let _ ← anyWord
      let _ ← group .brace do return [← commas (namedFieldFuel reach fuel)]
      return .node .field [attrs, vis, n, colon, ← passed .verbatimType start]
    else return .node .field [attrs, vis, n, colon, ← reach (.type true)]

/-- A named field. -/
def namedField (reach : Reach) : Parser Tree := do namedFieldFuel reach (tokenCount (← get) + 1)

/-- A field without a name. -/
def tupleField (reach : Reach) : Parser Tree := do
  let attrs ← outerAttrs reach
  let vis ← visibility
  return .node .field [attrs, vis, .absent, .absent, ← reach (.type true)]

def namedFields (reach : Reach) : Parser Tree := group .brace do return [← commas (namedField reach)]

def tupleFields (reach : Reach) : Parser Tree := group .paren do return [← commas (tupleField reach)]

/-- A variant of an enumeration. A visibility in front of it is dropped. -/
def variant (reach : Reach) : Parser Tree := do
  let attrs ← outerAttrs reach
  let _ ← visibility
  let n ← name
  let ts ← get
  let fields ← if Ahead.group .brace ts then namedFields reach
    else if Ahead.group .paren ts then tupleFields reach else pure .absent
  let disc ← whenAhead (Ahead.symbol "=") do return .node .discriminant [← symbol "=", ← reach (.expr true)]
  return .node .variant [attrs, n, fields, disc]

/-- A struct, after its visibility. -/
def structItem (reach : Reach) (vis : Tree) : Parser Tree := do
  let s ← word "struct"
  let n ← name
  let gs ← generics reach
  let early ← whereClause reach
  let ts ← get
  if !early.isPresent && Ahead.group .paren ts then
    let fields ← tupleFields reach
    let late ← whereClause reach
    return .node .structItem [.noAttrs, vis, s, n, gs, .absent, fields, late, ← symbol ";"]
  else if Ahead.group .brace ts then
    return .node .structItem [.noAttrs, vis, s, n, gs, early, ← namedFields reach, .absent, .absent]
  else return .node .structItem [.noAttrs, vis, s, n, gs, early, .absent, .absent, ← symbol ";"]

/-- A constant's parts, and whether it has neither angle brackets nor a where clause: name, colon, type, equals
    sign, value, semicolon. -/
def constParts (reach : Reach) : Parser (List Tree × Bool) := do
  let n ← nameOrBlank
  let angled ← ahead (Ahead.symbol "<")
  let _ ← generics reach
  let colon ← symbol ":"
  let ty ← reach (.type true)
  let eq ← symbol? "="
  let value ← partWhen eq.isPresent (reach (.expr true))
  let limited ← ahead (Ahead.word "where")
  let _ ← whereClause reach
  let semi ← symbol ";"
  return ([n, colon, ty, eq, value, semi], !angled && !limited)

/-- A macro call in place of an item or a member. -/
def macroMember (attrs : Tree) : Parser Tree := do
  let p ← plainPath
  let bang ← symbol "!"
  let (d, o, content, c) ← anyGroup
  let call := Tree.node .macroCall [p, bang, .group d o [.tokens content] c]
  return .node .macroMember [attrs, call, ← partWhen (!(d == .brace)) (symbol ";")]

/-- Whether a path starts here, as that of a macro call. -/
def macroPathAhead (ts : List TokenTree) : Bool :=
  Ahead.name ts || Ahead.oneOf ["self", "super", "crate"] ts || Ahead.symbol "::" ts

/-- Optional bounds after a colon, up to the definition or the end of a type member. -/
def memberBounds (reach : Reach) : Parser (Tree × Tree) :=
  let stop (ts : List TokenTree) : Bool :=
    Ahead.word "where" ts || Ahead.symbol "=" ts || Ahead.symbol ";" ts
  colonBounds stop (bound reach .declared)

/-- A function with its body, after its visibility. -/
def fnBody (reach : Reach) : Parser Tree := reach (.block true)

/-- A member of an implementation. -/
def implMember (reach : Reach) : Parser Tree := do
  let begin ← get
  let attrs ← outerAttrs reach
  let vis ← visibility
  let ts ← get
  let def_ ← whenAhead (fun ts => Ahead.word "default" ts && !Ahead.symbol "!" (ts.drop 1)) anyWord
  let ts' ← get
  if signatureAhead false ts' then
    let sig ← signature reach
    if Ahead.symbol ";" (← get) then
      let _ ← symbol ";"
      passedThrough begin
    else return .node .methodItem [attrs, vis, def_, sig, ← fnBody reach]
  else if Ahead.word "const" ts' then
    let c ← word "const"
    match ← constParts reach with
    | ([n, colon, ty, eq, value, semi], true) =>
      if eq.isPresent then return .node .assocConst [attrs, vis, def_, c, n, colon, ty, eq, value, semi]
      else passedThrough begin
    | _ => passedThrough begin
  else if Ahead.word "type" ts' then
    let t ← word "type"
    let n ← name
    let gs ← generics reach
    let bounded ← ahead (Ahead.symbol ":")
    let _ ← memberBounds reach
    let eq ← symbol? "="
    let ty ← partWhen eq.isPresent (reach (.type true))
    let w ← whereClause reach
    let semi ← symbol ";"
    if bounded || !eq.isPresent then passedThrough begin
    else return .node .assocType [attrs, vis, def_, t, n, gs, eq, ty, w, semi]
  else if !vis.isPresent && !def_.isPresent && macroPathAhead ts then macroMember attrs
  else refuse

/-- A member of a trait. -/
def traitMember (reach : Reach) : Parser Tree := do
  let begin ← get
  let attrs ← outerAttrs reach
  let vis ← visibility
  let def_ ← word? "default"
  let ts ← get
  let plain := !vis.isPresent && !def_.isPresent
  let method : Parser Tree := do
    let sig ← signature reach
    let body ← if Ahead.group .brace (← get) then fnBody reach else symbol ";"
    return .node .traitFn [attrs, sig, body]
  let constant : Parser Tree := do
    let c ← word "const"
    match ← constParts reach with
    | ([n, colon, ty, eq, value, semi], true) =>
      let given := if eq.isPresent then Tree.node .defaultValue [eq, value] else .absent
      return .node .traitConst [attrs, c, n, colon, ty, given, semi]
    | _ => passedThrough begin
  let assoc : Parser Tree := do
    let t ← word "type"
    let n ← name
    let gs ← generics reach
    let (colon, bs) ← memberBounds reach
    let given ← whenAhead (Ahead.symbol "=") do return .node .defaultValue [← symbol "=", ← reach (.type true)]
    let w ← whereClause reach
    return .node .traitType [attrs, t, n, gs, colon, bs, given, w, ← symbol ";"]
  let m ← if signatureAhead false ts then method
    else if Ahead.word "const" ts then constant
    else if Ahead.word "type" ts then assoc
    else if plain && macroPathAhead ts then macroMember attrs
    else refuse
  if plain then return m else passedThrough begin

/-- A foreign function, after its visibility. One that is declared to be safe or has a body is only passed
    through. -/
def foreignFn (reach : Reach) (begin : List TokenTree) (attrs vis : Tree) : Parser Tree := do
  let (sig, safe) ← signatureWith reach true
  if Ahead.group .brace (← get) then
    let _ ← fnBody reach
    passedThrough begin
  else
    let semi ← symbol ";"
    if safe then passedThrough begin else return .node .foreignFn [attrs, vis, sig, semi]

/-- A foreign variable, after its visibility. One that is declared to be safe or unsafe or has a value is only
    passed through. -/
def foreignStatic (reach : Reach) (begin : List TokenTree) (attrs vis : Tree) : Parser Tree := do
  let danger ← whenAhead (Ahead.oneOf ["unsafe", "safe"]) anyWord
  let s ← word "static"
  let m ← word? "mut"
  let n ← name
  let colon ← symbol ":"
  let ty ← reach (.type true)
  let eq ← symbol? "="
  let _ ← partWhen eq.isPresent (reach (.expr true))
  let semi ← symbol ";"
  if danger.isPresent || eq.isPresent then passedThrough begin
  else return .node .foreignStatic [attrs, vis, s, m, n, colon, ty, semi]

/-- A member of a block of foreign items. -/
def foreignMember (reach : Reach) : Parser Tree := do
  let begin ← get
  let attrs ← outerAttrs reach
  let vis ← visibility
  let ts ← get
  if signatureAhead true ts then foreignFn reach begin attrs vis
  else if Ahead.word "static" ts || (Ahead.oneOf ["unsafe", "safe"] ts && Ahead.word "static" (ts.drop 1)) then
    foreignStatic reach begin attrs vis
  else if Ahead.word "type" ts then
    let t ← word "type"
    let n ← name
    let gs ← generics reach
    let bounded ← ahead (Ahead.symbol ":")
    let _ ← memberBounds reach
    let limited ← ahead (Ahead.word "where")
    let w ← whereClause reach
    let eq ← symbol? "="
    let _ ← partWhen eq.isPresent (reach (.type true))
    let late ← partWhen (!limited) (whereClause reach)
    let semi ← symbol ";"
    if bounded || eq.isPresent then passedThrough begin
    else return .node .foreignType [attrs, vis, t, n, gs, if w.isPresent then w else late, semi]
  else if !vis.isPresent && macroPathAhead ts then macroMember attrs
  else refuse

/-- An implementation, after its visibility. -/
def implItem (reach : Reach) (begin : List TokenTree) (vis : Tree) : Parser Tree := do
  let def_ ← word? "default"
  let u ← word? "unsafe"
  let i ← word "impl"
  let gs ← if genericsAhead (← get) then generics reach else pure .absent
  let ts ← get
  let constImpl := Ahead.word "const" ts || (Ahead.symbol "?" ts && Ahead.word "const" (ts.drop 1))
  let _ ← partWhen constImpl (symbol? "?")
  let _ ← partWhen constImpl (word "const")
  let bang ← whenAhead (fun ts => Ahead.symbol "!" ts && !Ahead.group .brace (ts.drop 1)) (symbol "!")
  let first ← reach (.type true)
  let f ← word? "for"
  let self ← if f.isPresent then reach (.type true) else pure first
  if bang.isPresent && !f.isPresent then refuse
  let w ← whereClause reach
  let body ← itemsBody reach (implMember reach)
  let impl (of : Tree) : Tree := .node .implItem [.noAttrs, def_, u, i, gs, of, self, w, body]
  if vis.isPresent || constImpl then passedThrough begin
  else if !f.isPresent then return impl .absent
  else match first with
    | .node .pathType [.node .path cs] => return impl (.node .implTrait [bang, .node .path cs, f])
    | _ => passedThrough begin

/-- The rest of a trait, from its colon on. -/
def traitRest (reach : Reach) (front : List Tree) : Parser Tree := do
  let stop (ts : List TokenTree) : Bool := Ahead.word "where" ts || Ahead.group .brace ts
  let colon ← symbol? ":"
  let bs ← if colon.isPresent then separated stop "+" (bound reach .declared) else pure (.list [])
  let colon := if bs.children.isEmpty then .absent else colon
  let w ← whereClause reach
  return .node .traitItem (front ++ [colon, bs, w, ← itemsBody reach (traitMember reach)])

/-- A trait or an alias for bounds, after its visibility. -/
def traitItem (reach : Reach) (vis : Tree) : Parser Tree := do
  let u ← word? "unsafe"
  let a ← word? "auto"
  let t ← word "trait"
  let n ← name
  let gs ← generics reach
  if Ahead.symbol "=" (← get) && !u.isPresent && !a.isPresent then
    let eq ← symbol "="
    let stop (ts : List TokenTree) : Bool := Ahead.word "where" ts || Ahead.symbol ";" ts
    let bs ← separated stop "+" (bound reach .object)
    let w ← whereClause reach
    return .node .traitAliasItem [.noAttrs, vis, t, n, gs, eq, bs, w, ← symbol ";"]
  else traitRest reach [.noAttrs, vis, u, a, t, n, gs]

/-- A module, after its visibility. -/
def modItem (reach : Reach) (vis : Tree) : Parser Tree := do
  let u ← word? "unsafe"
  let m ← word "mod"
  let n ← if Ahead.word "try" (← get) then anyWord else name
  let body ← if Ahead.symbol ";" (← get) then symbol ";" else itemsBody reach (reach .item)
  return .node .modItem [.noAttrs, vis, u, m, n, body]

/-- A block of foreign items. -/
def foreignMod (reach : Reach) : Parser Tree := do
  let u ← word? "unsafe"
  let a ← abi
  return .node .foreignModItem [.noAttrs, u, a, ← itemsBody reach (foreignMember reach)]

/-- An item that starts with a path: the call of a macro. -/
def macroItem : Parser Tree := do
  let p ← plainPath
  let bang ← symbol "!"
  let n ← whenAhead (fun ts => Ahead.name ts || Ahead.word "try" ts) anyWord
  let (d, o, content, c) ← anyGroup
  let semi ← partWhen (!(d == .brace)) (symbol ";")
  return .node .macroItem [.noAttrs, p, bang, n, .group d o [.tokens content] c, semi]

/-- A named macro, after its visibility. -/
def namedMacro (begin : List TokenTree) : Parser Tree := do
  let _ ← word "macro"
  let _ ← name
  if Ahead.group .paren (← get) then
    let _ ← anyGroup
  if Ahead.group .brace (← get) then
    let _ ← anyGroup
    passedThrough begin
  else refuse

/-- A type alias, after its visibility. -/
def typeItem (reach : Reach) (begin : List TokenTree) (vis : Tree) : Parser Tree := do
  let t ← word "type"
  let n ← name
  let gs ← generics reach
  let bounded ← ahead (Ahead.symbol ":")
  let _ ← memberBounds reach
  let w ← whereClause reach
  let eq ← symbol? "="
  let ty ← partWhen eq.isPresent (reach (.type true))
  let semi ← symbol ";"
  if bounded || !eq.isPresent then passedThrough begin
  else return .node .typeItem [.noAttrs, vis, t, n, gs, w, eq, ty, semi]

/-- An item that is introduced by a word, after its attributes and visibility. -/
def itemRest (reach : Reach) (begin : List TokenTree) (vis : Tree) : Parser Tree := do
  let ts ← get
  let after := ts.drop 1
  if signatureAhead false ts then
    let sig ← signature reach
    if Ahead.symbol ";" (← get) then
      let _ ← symbol ";"
      passedThrough begin
    else return .node .fnItem [.noAttrs, vis, sig, ← fnBody reach]
  else if Ahead.word "extern" ts then
    if Ahead.word "crate" after then
      let e ← word "extern"
      let c ← word "crate"
      let n ← if Ahead.word "self" (← get) then anyWord else name
      let rename ← whenAhead (Ahead.word "as") do return .node .rename [← word "as", ← nameOrBlank]
      return .node .externCrateItem [.noAttrs, vis, e, c, n, rename, ← symbol ";"]
    else if vis.isPresent then refuse
    else foreignMod reach
  else if Ahead.word "use" ts then
    let u ← word "use"
    let lead ← symbol? "::"
    let tree ← reach (.useTree (!lead.isPresent))
    let semi ← symbol ";"
    if hasInnerRoot tree then passedThrough begin
    else return .node .useItem [.noAttrs, vis, u, lead, tree, semi]
  else if Ahead.word "static" ts then
    let s ← word "static"
    let m ← word? "mut"
    let n ← name
    let colon ← symbol? ":"
    let ty ← partWhen colon.isPresent (reach (.type true))
    let eq ← symbol? "="
    let value ← partWhen eq.isPresent (reach (.expr true))
    let semi ← symbol ";"
    if colon.isPresent && eq.isPresent then
      return .node .staticItem [.noAttrs, vis, s, m, n, colon, ty, eq, value, semi]
    else if colon.isPresent || eq.isPresent then passedThrough begin
    else refuse
  else if Ahead.word "const" ts then
    let c ← word "const"
    match ← constParts reach with
    | ([n, colon, ty, eq, value, semi], true) =>
      if eq.isPresent then return .node .constItem [.noAttrs, vis, c, n, colon, ty, eq, value, semi]
      else passedThrough begin
    | _ => passedThrough begin
  else if Ahead.word "unsafe" ts then
    if Ahead.word "trait" after || (Ahead.word "auto" after && Ahead.word "trait" (ts.drop 2)) then traitItem reach vis
    else if Ahead.word "impl" after then implItem reach begin vis
    else if Ahead.word "extern" after then (if vis.isPresent then refuse else foreignMod reach)
    else if Ahead.word "mod" after then modItem reach vis
    else refuse
  else if Ahead.word "mod" ts then modItem reach vis
  else if Ahead.word "type" ts then typeItem reach begin vis
  else if Ahead.word "struct" ts then structItem reach vis
  else if Ahead.word "enum" ts then
    let e ← word "enum"
    let n ← name
    let gs ← generics reach
    let w ← whereClause reach
    let variants ← group .brace do return [← commas (variant reach)]
    return .node .enumItem [.noAttrs, vis, e, n, gs, w, variants]
  else if Ahead.word "union" ts && Ahead.name after then
    let u ← word "union"
    let n ← name
    let gs ← generics reach
    let w ← whereClause reach
    return .node .unionItem [.noAttrs, vis, u, n, gs, w, ← namedFields reach]
  else if Ahead.word "trait" ts || (Ahead.word "auto" ts && Ahead.word "trait" after) then traitItem reach vis
  else if Ahead.word "impl" ts || (Ahead.word "default" ts && !Ahead.symbol "!" after) then implItem reach begin vis
  else if Ahead.word "macro" ts then namedMacro begin
  else if !vis.isPresent && macroPathAhead ts then macroItem
  else refuse

/-- An item. -/
def item (reach : Reach) : Parser Tree := do
  let begin ← get
  let attrs ← outerAttrs reach
  let vis ← visibility
  let i ← itemRest reach begin vis
  return if i.kind? == some .verbatimItem then i else i.addAttrs attrs

end CallProbe.Source.Parse
