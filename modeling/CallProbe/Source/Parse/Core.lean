import CallProbe.Source.Literal
import CallProbe.Source.Tree

/-! # Parsing: goals and steps

A parser takes token trees from the front of a sequence and builds a syntax tree. The grammar refers to
itself everywhere, so its rules are written against a given way to reach a `Goal`; `Grammar.parse` ties
the knot with a bound on how often rules may call each other, which the number of tokens provides. -/

namespace CallProbe.Source

/-- Why a sequence of tokens is not what was asked for. -/
inductive Fault where
  | unexpected
  /-- Something was expected; `ended` says whether no token was left. -/
  | expected (what : String) (ended : Bool)
  | chainedComparison
deriving DecidableEq, Repr

/-- The text of a fault. -/
def Fault.message : Fault → String
  | unexpected => "unexpected token"
  | expected what ended => (if ended then "unexpected end of input, expected " else "expected ") ++ what
  | chainedComparison => "comparison operators cannot be chained"

/-- A parser on the tokens that are left. -/
abbrev Parser (α : Type) := StateT (List TokenTree) (Except Fault) α

/-- How tightly operators bind, loosest first. -/
inductive Precedence where
  | jump
  | assign
  | range
  | disjunction
  | conjunction
  | binding
  | compare
  | bitOr
  | bitXor
  | bitAnd
  | shift
  | sum
  | product
  | cast
  /-- An operator in front, or attributes. -/
  | prefixed
  /-- No operator at its ends. -/
  | closed
deriving DecidableEq, Repr

/-- The place of a precedence in the order. -/
def Precedence.rank : Precedence → Nat
  | jump => 0
  | assign => 1
  | range => 2
  | disjunction => 3
  | conjunction => 4
  | binding => 5
  | compare => 6
  | bitOr => 7
  | bitXor => 8
  | bitAnd => 9
  | shift => 10
  | sum => 11
  | product => 12
  | cast => 13
  | prefixed => 14
  | closed => 15

/-- What a rule can ask for. -/
inductive Goal where
  /-- An expression; `structs` says whether a struct literal may stand at its outer level. -/
  | expr (structs : Bool)
  /-- An expression without binary operators. -/
  | unary (structs : Bool)
  /-- The operators after a left operand, none that binds more loosely than `base`. -/
  | climb (left : Tree) (structs : Bool) (base : Precedence)
  /-- An expression that ends at its closing brace if it is like a block. -/
  | earlyExpr
  /-- The operand after an operator. -/
  | operand (structs : Bool) (after : Precedence)
  /-- Calls, fields, subscripts and question marks after an expression. -/
  | trailers (base : Tree)
  /-- A block in braces; `inner` says whether it may start with inner attributes. -/
  | block (inner : Bool)
  | stmt
  | pattern
  /-- A type; `plus` says whether bounds may be added to it. -/
  | type (plus : Bool)
  /-- A path as in a type, without function-like arguments. -/
  | typePath
  /-- A parameter in angle brackets. -/
  | genericParam
  | item
  /-- What a `use` brings in; `root` says whether a path may start at the crate root. -/
  | useTree (root : Bool)

/-- A way to reach goals. -/
abbrev Reach := Goal → Parser Tree

namespace Ahead

/-! ### Looking at the tokens that are left -/

/-- The words that are not names. -/
def keywords : List String :=
  ["_", "abstract", "as", "async", "await", "become", "box", "break", "const", "continue", "crate", "do",
    "dyn", "else", "enum", "extern", "false", "final", "fn", "for", "if", "impl", "in", "let", "loop",
    "macro", "match", "mod", "move", "mut", "override", "priv", "pub", "ref", "return", "Self", "self",
    "static", "struct", "super", "trait", "true", "try", "type", "typeof", "unsafe", "unsized", "use",
    "virtual", "where", "while", "yield"]

/-- A given word. -/
def word (w : String) : List TokenTree → Bool
  | .ident t _ :: _ => t == w
  | _ => false

/-- One of the given words. -/
def oneOf (ws : List String) : List TokenTree → Bool
  | .ident t _ :: _ => ws.contains t
  | _ => false

/-- Any word. -/
def anyWord : List TokenTree → Bool
  | .ident _ _ :: _ => true
  | _ => false

/-- A word that is a name. -/
def name : List TokenTree → Bool
  | .ident t _ :: _ => !keywords.contains t
  | _ => false

def lifetime : List TokenTree → Bool
  | .lifetime _ _ :: _ => true
  | _ => false

/-- The characters of an operator, each joined to the next. -/
def chars : List Char → List TokenTree → Bool
  | [], _ => true
  | [c], .punct d _ _ :: _ => c == d
  | c :: cs, .punct d joint _ :: ts => c == d && joint && chars cs ts
  | _, _ => false

/-- An operator. Characters that follow it are not looked at. -/
def symbol (s : String) (ts : List TokenTree) : Bool := chars s.toList ts

/-- A bracketed part. -/
def group (d : Delimiter) : List TokenTree → Bool
  | .group e _ _ _ :: _ => d == e
  | _ => false

/-- Whether a literal token is a number. -/
def isNumber (text : String) : Bool := text.toList.head?.any Char.isDigit

/-- A literal: a literal token, a truth value, or a number with a minus. -/
def literal : List TokenTree → Bool
  | .literal _ _ :: _ => true
  | .ident t _ :: _ => t == "true" || t == "false"
  | .punct '-' _ _ :: .literal t _ :: _ => isNumber t
  | _ => false

/-- A string literal. -/
def stringLiteral : List TokenTree → Bool
  | .literal t _ :: _ => match Literal.ofText t with
    | some (.str _) => true
    | _ => false
  | _ => false

/-- A number with a point or an exponent. -/
def fractional : List TokenTree → Bool
  | .literal t _ :: _ => match Literal.ofText t with
    | some (.float _ _) => true
    | _ => false
  | _ => false

end Ahead

namespace Parse

/-! ### Steps -/

variable {α : Type}

/-- Refuses the tokens. -/
def refuse : Parser α := throw .unexpected

/-- Refuses the tokens because something else was expected. -/
def expect (what : String) : Parser α := fun ts => .error (.expected what ts.isEmpty)

/-- Whether the tokens that are left pass a test. -/
def ahead (test : List TokenTree → Bool) : Parser Bool := do return test (← get)

/-- Runs a parser if the tokens pass a test, and leaves the part out otherwise. -/
def whenAhead (test : List TokenTree → Bool) (p : Parser Tree) : Parser Tree := do
  if test (← get) then p else return Tree.absent

/-- Runs a parser if a condition holds, and leaves the part out otherwise. -/
def partWhen (c : Bool) (p : Parser Tree) : Parser Tree := if c then p else pure Tree.absent

/-- Runs a parser; if it fails, no token is taken. -/
def attempt (p : Parser α) : Parser (Option α) := fun ts =>
  match p ts with
  | .ok (a, rest) => .ok (some a, rest)
  | .error _ => .ok (none, ts)

/-- Runs a parser on a sequence of its own, all of which it must take. -/
def within (content : List TokenTree) (p : Parser α) : Parser α := fun ts =>
  match p content with
  | .ok (a, []) => .ok (a, ts)
  | .ok (_, _ :: _) => .error .unexpected
  | .error e => .error e

/-- Any word. -/
def anyWord : Parser Tree := do
  match ← get with
  | .ident t p :: rest => set rest; return .leaf (.word t p)
  | _ => refuse

/-- A given word. -/
def word (w : String) : Parser Tree := do if Ahead.word w (← get) then anyWord else refuse

/-- A given word, if it comes next. -/
def word? (w : String) : Parser Tree := whenAhead (Ahead.word w) anyWord

/-- A name. -/
def name : Parser Tree := do if Ahead.name (← get) then anyWord else refuse

def lifetime : Parser Tree := do
  match ← get with
  | .lifetime t p :: rest => set rest; return .leaf (.lifetime t p)
  | _ => refuse

/-- A lifetime, if one comes next. -/
def lifetime? : Parser Tree := whenAhead Ahead.lifetime lifetime

/-- An operator. -/
def symbol (s : String) : Parser Tree := do
  let ts ← get
  if Ahead.symbol s ts then
    set (ts.drop s.length)
    return .leaf (.symbol s (startOf ts))
  else expect ("`" ++ s ++ "`")

/-- An operator, if it comes next. -/
def symbol? (s : String) : Parser Tree := whenAhead (Ahead.symbol s) (symbol s)

/-- A literal. A minus in front of a number belongs to it. -/
def literal : Parser Tree := do
  match ← get with
  | .literal t p :: rest => set rest; return .leaf (.literal t p)
  | .ident t p :: rest => if t == "true" || t == "false" then set rest; return .leaf (.word t p) else refuse
  | .punct '-' _ p :: .literal t q :: rest =>
    if Ahead.isNumber t then
      set rest
      return .node .negative [.leaf (.symbol "-" p), .leaf (.literal t q)]
    else refuse
  | _ => refuse

/-- A bracketed part whose content a parser takes whole. -/
def group (d : Delimiter) (p : Parser (List Tree)) : Parser Tree := do
  match ← get with
  | .group e o content c :: rest =>
    if d == e then
      set rest
      return .group d o (← within content p) c
    else refuse
  | _ => refuse

/-- A bracketed part of any kind, its tokens as they are. -/
def anyGroup : Parser (Delimiter × Pos × List TokenTree × Pos) := do
  match ← get with
  | .group d o content c :: rest => set rest; return (d, o, content, c)
  | _ => refuse

/-- The tokens that were taken since `start` were left. -/
def takenSince (start : List TokenTree) : Parser Tree := do
  return .tokens (start.take (start.length - (← get).length))

/-- A form that is only passed through, given where it starts. -/
def passed (kind : Kind) (start : List TokenTree) : Parser Tree := do
  return .node kind [← takenSince start]

/-- Whether no token is left. -/
def atEnd : List TokenTree → Bool := List.isEmpty

/-- Repeats a parser while the tokens pass a test; `fuel` bounds the number of turns. -/
def repeatFuel (test : List TokenTree → Bool) (p : Parser α) : Nat → Parser (List α)
  | 0 => return []
  | fuel + 1 => do
    if test (← get) then
      let a ← p
      return a :: (← repeatFuel test p fuel)
    else return []

/-- Repeats a parser that takes tokens, while a test passes. -/
def repeatWhile (test : List TokenTree → Bool) (p : Parser α) : Parser (List α) := do
  repeatFuel test p (← get).length

/-- Elements up to a stop, with a separator between neighbours and maybe after the last one. -/
def separatedFuel (stop : List TokenTree → Bool) (sep : String) (p : Parser Tree) : Nat → Parser (List Tree)
  | 0 => return []
  | fuel + 1 => do
    if stop (← get) then return []
    let a ← p
    if stop (← get) then return [a]
    let s ← symbol sep
    return a :: s :: (← separatedFuel stop sep p fuel)

/-- Elements up to a stop, with a separator between neighbours and maybe after the last one. -/
def separated (stop : List TokenTree → Bool) (sep : String) (p : Parser Tree) : Parser Tree := do
  return .list (← separatedFuel stop sep p ((← get).length + 1))

/-- All that is left, as elements between commas. -/
def commas (p : Parser Tree) : Parser Tree := separated atEnd "," p

/-- Elements as long as a separator follows; a stop is looked for before each of them. -/
def joinedFuel (stop : List TokenTree → Bool) (sep : String) (p : Parser Tree) : Nat → Parser (List Tree)
  | 0 => return []
  | fuel + 1 => do
    if stop (← get) then return []
    let a ← p
    if Ahead.symbol sep (← get) then
      let s ← symbol sep
      return a :: s :: (← joinedFuel stop sep p fuel)
    else return [a]

/-- Elements as long as a separator follows; a stop is looked for before each of them. -/
def joined (stop : List TokenTree → Bool) (sep : String) (p : Parser Tree) : Parser Tree := do
  return .list (← joinedFuel stop sep p ((← get).length + 1))

/-! ### Attributes -/

/-- A path of names only, as in attributes and macro calls. -/
def plainPath : Parser Tree := do
  let lead ← symbol? "::"
  let part (ts : List TokenTree) : Bool := Ahead.name ts || Ahead.oneOf ["super", "self", "Self", "crate"] ts
  let segment : Parser Tree := do
    if part (← get) then return .node .segment [← anyWord, .absent] else refuse
  let first ← segment
  let rest ← repeatWhile (Ahead.symbol "::") do return [← symbol "::", ← segment]
  return .node .path [lead, .list (first :: rest.flatten)]

/-- The inside of an attribute. -/
def attrMeta (reach : Reach) : Parser Tree := do
  let single : Parser Tree := do return .node .path [.absent, .list [.node .segment [← anyWord, .absent]]]
  let path ← if Ahead.word "unsafe" (← get) then single else plainPath
  match ← get with
  | .group _ _ _ _ :: _ =>
    let (d, o, content, c) ← anyGroup
    return .node .metaList [path, .group d o [.tokens content] c]
  | ts =>
    if Ahead.symbol "=" ts then
      let eq ← symbol "="
      let ts ← get
      let alone : Parser Tree := do
        let l ← literal
        if atEnd (← get) then return .node .litExpr [.noAttrs, l] else refuse
      match ← attempt alone with
      | some value => return .node .metaNameValue [path, eq, value]
      | none =>
        if Ahead.symbol "#" ts && Ahead.group .bracket (ts.drop 1) then refuse
        return .node .metaNameValue [path, eq, ← reach (.expr true)]
    else return .node .metaPath [path]

/-- One attribute in front of what it applies to. -/
def outerAttr (reach : Reach) : Parser Tree := do
  let pound ← symbol "#"
  return .node .attr [pound, .absent, ← group .bracket do return [← attrMeta reach]]

/-- One attribute of what it stands in. -/
def innerAttr (reach : Reach) : Parser Tree := do
  let pound ← symbol "#"
  let bang ← symbol "!"
  return .node .attr [pound, bang, ← group .bracket do return [← attrMeta reach]]

/-- The attributes in front of something. -/
def outerAttrs (reach : Reach) : Parser Tree := do
  return .node .attrs (← repeatWhile (Ahead.symbol "#") (outerAttr reach))

/-- The attributes at the start of a body. -/
def innerAttrs (reach : Reach) : Parser Tree := do
  let inner (ts : List TokenTree) : Bool := Ahead.symbol "#" ts && Ahead.symbol "!" (ts.drop 1)
  return .node .attrs (← repeatWhile inner (innerAttr reach))

end Parse

/-- Puts attributes in front of those that a node has. -/
def Tree.addAttrs (t attrs : Tree) : Tree :=
  match t with
  | .node k (.node .attrs own :: rest) => .node k (.node .attrs (attrs.attrList ++ own) :: rest)
  | t => t

end CallProbe.Source
