import CallProbe.Source.Parse.Type

/-! # Parsing macro calls and patterns

The macros in `expressionMacros` take a list of expressions, so their arguments are read as such where
they can be; the arguments of other macros stay tokens. -/

namespace CallProbe.Source

/-- Macros whose arguments are expressions between commas. -/
def expressionMacros : List String :=
  ["assert", "assert_eq", "assert_ne", "dbg", "debug_assert", "debug_assert_eq", "debug_assert_ne",
    "eprint", "eprintln", "format", "format_args", "panic", "print", "println", "todo", "unimplemented",
    "unreachable", "vec", "write", "writeln"]

/-- Whether a path names one of those macros, alone or under a standard crate. -/
def isExpressionMacro : Tree → Bool
  | .node .path [_, segments] =>
    match segments.elements with
    | [.node .segment [n, _]] => expressionMacros.contains n.text
    | [.node .segment [c, _], .node .segment [n, _]] =>
      ["std", "core", "alloc"].contains c.text && expressionMacros.contains n.text
    | _ => false
  | _ => false

namespace Parse

/-- The bracketed arguments of a macro. -/
def macroArguments (reach : Reach) (path : Tree) : Parser Tree := do
  let (d, o, content, c) ← anyGroup
  let tokens := Tree.group d o [.tokens content] c
  if isExpressionMacro path then
    match ← attempt (within content (commas (reach (.expr true)))) with
    | some args => return .group d o [.arguments content args.children] c
    | none => return tokens
  else return tokens

/-- The rest of a macro call, after its path. -/
def macroCall (reach : Reach) (path : Tree) : Parser Tree := do
  let bang ← symbol "!"
  return .node .macroCall [path, bang, ← macroArguments reach path]

/-- Whether the bang of a macro call comes next. -/
def bangAhead (ts : List TokenTree) : Bool := Ahead.symbol "!" ts && !Ahead.symbol "!=" ts

/-- The decimal digits of a literal that numbers a field: a whole number of 32 bits without a suffix. -/
def fieldDigits? (text : String) : Option String :=
  match Literal.ofText text with
  | some (.int digits "") => if digits.toNat?.any (· < Nat.pow 2 32) then some digits else none
  | _ => none

/-- The number of a field, written in decimal. -/
def fieldIndex : Parser Tree := do
  match ← get with
  | .literal t p :: rest =>
    match fieldDigits? t with
    | some digits => set rest; return .leaf (.literal digits p)
    | none => refuse
  | _ => refuse

/-- The name or number of a field. -/
def member : Parser Tree := do if Ahead.name (← get) then name else fieldIndex

/-- Whether a member is a name. -/
def isNamed : Tree → Bool
  | .leaf (.word _ _) => true
  | _ => false

/-! ### Patterns -/

/-- Whether a bar that divides patterns comes next. -/
def barAhead (ts : List TokenTree) : Bool :=
  Ahead.symbol "|" ts && !Ahead.symbol "||" ts && !Ahead.symbol "|=" ts

/-- Patterns divided by bars, maybe with a bar in front. -/
def alternatives (reach : Reach) : Parser Tree := do
  let lead ← symbol? "|"
  let first ← reach .pattern
  let more ← repeatWhile barAhead do return [← symbol "|", ← reach .pattern]
  if lead.isPresent || !more.isEmpty then
    return .node .orPat [.noAttrs, lead, .list (first :: more.flatten)]
  else return first

/-- Whether no bound of a range can come next. -/
def noRangeBound (ts : List TokenTree) : Bool :=
  ts.isEmpty || Ahead.symbol "|" ts || Ahead.symbol "=" ts || (Ahead.symbol ":" ts && !Ahead.symbol "::" ts) ||
    Ahead.symbol "," ts || Ahead.symbol ";" ts || Ahead.word "if" ts

/-- A block that is evaluated at compile time. -/
def constBlock (reach : Reach) : Parser Tree := do
  let c ← word "const"
  return .node .constExpr [.noAttrs, c, ← reach (.block true)]

/-- A bound of a range pattern, as an expression. -/
def rangeBound (reach : Reach) : Parser Tree := do
  let ts ← get
  if noRangeBound ts then return .absent
  else if Ahead.literal ts then return .node .litExpr [.noAttrs, ← literal]
  else if Ahead.name ts || Ahead.symbol "::" ts || Ahead.symbol "<" ts || Ahead.oneOf pathWords ts then
    return .node .pathExpr [.noAttrs, ← anyPath reach true]
  else if Ahead.word "const" ts then constBlock reach
  else refuse

/-- The dots of a range pattern. Three dots are an older way to write a closed range. -/
def patternLimits : Parser Tree := do
  let ts ← get
  if Ahead.symbol "..=" ts then symbol "..="
  else if Ahead.symbol "..." ts then
    let _ ← symbol "..."
    return .leaf (.symbol "..=" (startOf ts))
  else symbol ".."

/-- A range pattern from its start on. -/
def rangeFrom (reach : Reach) (start : Tree) : Parser Tree := do
  let limits ← patternLimits
  let stop ← rangeBound reach
  if limits.isSymbol "..=" && !stop.isPresent then refuse
  return .node .rangePat [.noAttrs, start, limits, stop]

/-- A literal, path or block of a pattern that was read as an expression. -/
def patternOfExpr : Tree → Tree
  | .node .litExpr cs => .node .litPat cs
  | .node .pathExpr cs => .node .pathPat cs
  | .node .constExpr cs => .node .constPat cs
  | t => t

/-- A field of a struct pattern, after its attributes. -/
def fieldPat (reach : Reach) (attrs : Tree) : Parser Tree := do
  let start ← get
  if Ahead.word "box" start then
    let _ ← word "box"
    let _ ← word? "ref"
    let _ ← word? "mut"
    let _ ← name
    return .node .fieldPat [attrs, .absent, .absent, ← passed .verbatimPat start]
  let r ← word? "ref"
  let m ← word? "mut"
  let bare := !r.isPresent && !m.isPresent
  let n ← if bare then member else name
  if (bare && Ahead.symbol ":" (← get)) || !isNamed n then
    let colon ← symbol ":"
    return .node .fieldPat [attrs, n, colon, ← alternatives reach]
  else return .node .fieldPat [attrs, .absent, .absent, .node .identPat [.noAttrs, r, m, n, .absent]]

/-- The fields of a struct pattern and the two dots after them. -/
def fieldPatsFuel (reach : Reach) : Nat → Parser (List Tree × Tree)
  | 0 => refuse
  | fuel + 1 => do
    if atEnd (← get) then return ([], .absent)
    let attrs ← outerAttrs reach
    if Ahead.symbol ".." (← get) then return ([], .node .restPat [attrs, ← symbol ".."])
    let f ← fieldPat reach attrs
    if atEnd (← get) then return ([f], .absent)
    let comma ← symbol ","
    let (fs, rest) ← fieldPatsFuel reach fuel
    return (f :: comma :: fs, rest)

/-- A pattern that starts with a path. -/
def pathPattern (reach : Reach) : Parser Tree := do
  let p ← anyPath reach true
  let ts ← get
  if p.kind? == some .path && bangAhead ts && isPlainPath p then
    return .node .macroPat [.noAttrs, ← macroCall reach p]
  else if Ahead.group .brace ts then
    let body ← group .brace do
      let (fs, rest) ← fieldPatsFuel reach ((← get).length + 1)
      return [.list fs, rest]
    return .node .structPat [.noAttrs, p, body]
  else if Ahead.group .paren ts then
    return .node .tupleStructPat [.noAttrs, p, ← group .paren do return [← commas (alternatives reach)]]
  else if Ahead.symbol ".." ts then rangeFrom reach (.node .pathExpr [.noAttrs, p])
  else return .node .pathPat [.noAttrs, p]

/-- A pattern in parentheses or a tuple of patterns. -/
def parenPattern (reach : Reach) : Parser Tree := do
  match ← get with
  | .group .paren o content c :: rest =>
    set rest
    let elems ← within content (commas (alternatives reach))
    match elems with
    | .node .list [first] =>
      if first.kind? == some .restPat then return .node .tuplePat [.noAttrs, .group .paren o [elems] c]
      else return .node .parenPat [.noAttrs, .group .paren o [first] c]
    | _ => return .node .tuplePat [.noAttrs, .group .paren o [elems] c]
  | _ => refuse

/-- Whether a range pattern lacks one of its ends, which a slice pattern does not allow. -/
def isOpenRange : Tree → Bool
  | .node .rangePat [_, start, _, stop] => !start.isPresent || !stop.isPresent
  | _ => false

/-- A pattern without bars. -/
def pattern (reach : Reach) : Parser Tree := do
  let ts ← get
  let after := ts.drop 1
  let opensPath : Bool := Ahead.name ts &&
    (Ahead.symbol "::" after || Ahead.symbol "!" after || Ahead.group .brace after ||
      Ahead.group .paren after || Ahead.symbol ".." after)
  if opensPath || (Ahead.word "self" ts && Ahead.symbol "::" after) || Ahead.symbol "::" ts ||
      Ahead.symbol "<" ts || Ahead.oneOf ["Self", "super", "crate"] ts then pathPattern reach
  else if Ahead.word "_" ts then return .node .wildPat [.noAttrs, ← anyWord]
  else if Ahead.word "box" ts then
    let _ ← word "box"
    let _ ← reach .pattern
    passed .verbatimPat ts
  else if Ahead.symbol "-" ts || Ahead.literal ts || Ahead.word "const" ts then
    let start ← rangeBound reach
    if Ahead.symbol ".." (← get) then rangeFrom reach start else return patternOfExpr start
  else if Ahead.name ts || Ahead.oneOf ["ref", "mut", "self"] ts then
    let r ← word? "ref"
    let m ← word? "mut"
    let n ← if Ahead.word "self" (← get) then anyWord else name
    let sub ← whenAhead (Ahead.symbol "@") do return .node .subpattern [← symbol "@", ← reach .pattern]
    return .node .identPat [.noAttrs, r, m, n, sub]
  else if Ahead.symbol "&" ts then
    let amp ← symbol "&"
    let m ← word? "mut"
    return .node .referencePat [.noAttrs, amp, m, ← reach .pattern]
  else if Ahead.group .paren ts then parenPattern reach
  else if Ahead.group .bracket ts then
    let elems ← group .bracket do return [← commas (alternatives reach)]
    match elems with
    | .group _ _ [es] _ => if es.elements.any isOpenRange then refuse else return .node .slicePat [.noAttrs, elems]
    | _ => refuse
  else if Ahead.symbol ".." ts && !Ahead.symbol "..." ts then
    let limits ← if Ahead.symbol "..=" ts then symbol "..=" else symbol ".."
    let stop ← rangeBound reach
    if stop.isPresent then return .node .rangePat [.noAttrs, .absent, limits, stop]
    else if limits.isSymbol "..=" then refuse
    else return .node .restPat [.noAttrs, limits]
  else refuse

end Parse

end CallProbe.Source
