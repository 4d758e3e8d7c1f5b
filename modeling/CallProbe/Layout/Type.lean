import CallProbe.Layout.Tokens
import CallProbe.Source.Literal
import CallProbe.Source.Tree

/-! # Layout of attributes, paths, types and patterns

Syntax trees refer to each other everywhere, so each layout is written against a given way to lay out a
`Form`. -/

namespace CallProbe.Layout

open Source

/-- What an item is part of. -/
inductive ItemPlace where
  | module
  | impl
  | trait
  | foreign
deriving DecidableEq

/-- What an item is called in its place. -/
def ItemPlace.text : ItemPlace → String
  | module => "Item"
  | impl => "ImplItem"
  | trait => "TraitItem"
  | foreign => "ForeignItem"

/-- A tree with the place it stands at. -/
inductive Form where
  /-- An expression; `lineStart` says whether a line starts with it. -/
  | expr (e : Tree) (lineStart : Bool)
  /-- An expression that a dot, call or subscript follows. -/
  | chained (e : Tree) (lineStart : Bool)
  | pattern (p : Tree)
  | type (t : Tree)
  | bound (b : Tree)
  /-- Generic arguments as in a type. -/
  | args (a : Tree)
  | stmt (s : Tree) (last : Bool)
  | item (i : Tree) (place : ItemPlace)

/-- The tree of a form. -/
def Form.tree : Form → Tree
  | .expr e _ | .chained e _ => e
  | .pattern t | .type t | .bound t | .args t | .stmt t _ | .item t _ => t

/-- A way to lay out forms. -/
abbrev Show := Form → Doc

/-- An expression inside a line. -/
def Form.inner (e : Tree) : Form := .expr e false

/-! ### Attributes -/

/-- The tokens of a tree as one word; only for trees without gaps. -/
def spelled (t : Tree) : Doc := word (String.join (t.toTokens.flatMap TokenTree.spellings))

/-- The value of an attribute such as `doc = "…"`. -/
def textValue? (name : String) : Tree → Option String
  | .node .metaNameValue [.node .path [.node .absent _, .node .list [.node .segment [n, _]]], _,
      .node .litExpr [.node .attrs [], .leaf (.literal t _)]] =>
    if n.text == name then
      match Literal.ofText t with
      | some (.str s) => some s
      | _ => none
    else none
  | _ => none

/-- A text without the spaces at its end. -/
def dropEndSpaces (cs : List Char) : List Char := (cs.reverse.dropWhile (· = ' ')).reverse

/-- Drops the spaces at the ends of all lines but the last. -/
def dropInnerEndSpaces (s : String) : String :=
  let lines := s.splitOn "\n"
  Text.joinWith "\n" ((lines.dropLast.map fun l => String.ofList (dropEndSpaces l.toList)) ++ lines.getLast?.toList)

/-- Whether comment marks in a text are balanced, with `depth` of them open. -/
def marksBalanced : Nat → List Char → Bool
  | depth, '/' :: '*' :: cs => marksBalanced (depth + 1) cs
  | depth, '*' :: '/' :: cs => match depth with
    | 0 => false
    | depth + 1 => marksBalanced depth cs
  | depth, _ :: cs => marksBalanced depth cs
  | depth, [] => depth == 0

/-- Whether a text can stand in a block comment. -/
def fitsBlockComment (s : String) : Bool :=
  marksBalanced 0 s.toList && s.toList.getLast? != some '/'

/-- A comment for an attribute that holds one: a line if the text has only one, otherwise a block. -/
def commentDoc? (line block : String) (lineOk blockOk : Bool) (s : String) : Option Doc :=
  if !s.toList.contains '\n' && lineOk then
    some (word line ++ word (String.ofList (dropEndSpaces s.toList)) ++ lineBreak)
  else if fitsBlockComment s && blockOk then
    some (word block ++ word (dropInnerEndSpaces s) ++ word "*/" ++ lineBreak)
  else none

/-- Whether a text starts with one of the given characters. -/
def startsWithAny (cs : List Char) (s : String) : Bool := s.toList.head?.any cs.contains

/-- The comment that an attribute stands for. -/
def asComment? (inner : Bool) (m : Tree) : Option Doc :=
  match textValue? "doc" m with
  | some s =>
    if inner then commentDoc? "//!" "/*!" true true s
    else commentDoc? "///" "/**" (!startsWithAny ['/'] s) (!startsWithAny ['*', '/'] s) s
  | none =>
    match textValue? "comment" m with
    | some s => if s.toList.contains '\n' then commentDoc? "//" "/*" false (!startsWithAny ['*', '!'] s) s
      else commentDoc? "//" "/*" true false s
    | none => none

/-- The inside of an attribute. -/
def metaDoc (show_ : Show) : Tree → Doc
  | .node .metaPath [p] => spelled p
  | .node .metaList [p, .group d o [.tokens ts] c] =>
    spelled p ++ (attrTokens false .wordLike [.group d o ts c]).1
  | .node .metaNameValue [p, _, e] => spelled p ++ word " = " ++ show_ (.inner e)
  | _ => nothing

/-- An attribute. -/
def attrDoc (show_ : Show) : Tree → Doc
  | .node .attr [_, bang, .group _ _ [m] _] =>
    match asComment? bang.isPresent m with
    | some d => d
    | none => word (if bang.isPresent then "#!" else "#") ++ word "[" ++ metaDoc show_ m ++ word "]" ++ space
  | _ => nothing

/-- Attributes in order. -/
def attrsDoc (show_ : Show) (attrs : Tree) : Doc := attrs.attrList.flatMap (attrDoc show_)

/-! ### Paths -/

/-- Where a path stands, which decides how its arguments are written. -/
inductive PathPlace where
  | inType
  | inExpr
deriving DecidableEq

/-- Bounds after a colon, in a box of their own. -/
def colonBoundsDoc (show_ : Show) (bounds : Tree) : Doc :=
  eachFrom (fun first _ b => (if first then word ": " else space ++ word "+ ") ++ show_ (.bound b)) true
    bounds.elements

/-- Elements of a list in a box, with a comma after the last one if a line ends there. -/
def listBox (offset : Int) (f : Tree → Doc) (elems : List Tree) : Doc :=
  uniformBox offset (softBreak ++ each (fun last e => f e ++ comma last) elems ++ outdent)

/-- Generic arguments in angle brackets; `argDoc` lays out one of them. -/
def angleArgsWith (argDoc : Tree → Doc) (place : PathPlace) : Tree → Doc
  | .node .angleArgs [_, _, args, _] =>
    if args.elements.isEmpty then nothing
    else word (if place = .inExpr then "::<" else "<") ++ listBox tab argDoc args.elements ++ word ">"
  | _ => nothing

/-- A generic argument. -/
def genericArgDoc (show_ : Show) : Tree → Doc
  | .node .lifetimeArg [l] => word l.text
  | .node .typeArg [t] => show_ (.type t)
  | .node .constArg [e] => show_ (.inner e)
  | .node .assocTypeArg [n, args, _, t] => word n.text ++ show_ (.args args) ++ word " = " ++ show_ (.type t)
  | .node .assocConstArg [n, args, _, e] => word n.text ++ show_ (.args args) ++ word " = " ++ show_ (.inner e)
  | .node .constraintArg [n, args, _, bounds] =>
    word n.text ++ show_ (.args args) ++ filledBox tab (colonBoundsDoc show_ bounds)
  | _ => nothing

/-- Generic arguments in angle brackets. -/
def angleArgsDoc (show_ : Show) (place : PathPlace) (args : Tree) : Doc :=
  angleArgsWith (genericArgDoc show_) place args

/-- The type that a function returns. -/
def returnTypeDoc (show_ : Show) : Tree → Doc
  | .node .returnType [_, t] => word " -> " ++ show_ (.type t)
  | _ => nothing

/-- The arguments of a segment. -/
def segmentArgsDoc (show_ : Show) (place : PathPlace) : Tree → Doc
  | .node .parenArgs [.group _ _ [types] _, output] =>
    uniformBox tab (word "(" ++ softBreak ++ each (fun last t => show_ (.type t) ++ comma last) types.elements ++
      outdent ++ word ")" ++ returnTypeDoc show_ output)
  | args => angleArgsDoc show_ place args

/-- A segment of a path. -/
def segmentDoc (show_ : Show) (place : PathPlace) : Tree → Doc
  | .node .segment [n, args] => word n.text ++ segmentArgsDoc show_ place args
  | _ => nothing

/-- A path. -/
def pathDoc (show_ : Show) (place : PathPlace) : Tree → Doc
  | .node .path [lead, segments] =>
    (if lead.isPresent then word "::" else nothing) ++ sepBy (word "::") (segmentDoc show_ place) segments.elements
  | .node .qualifiedPath [_, t, _, trait, _, _, segments] =>
    let as_ := match trait with
      | .node .path [lead, inner] =>
        word " as " ++ (if lead.isPresent then word "::" else nothing) ++
          sepBy (word "::") (segmentDoc show_ .inType) inner.elements
      | _ => nothing
    word "<" ++ show_ (.type t) ++ as_ ++ word ">" ++
      segments.elements.flatMap fun s => word "::" ++ segmentDoc show_ place s
  | _ => nothing

/-- The path of a struct or variant in a pattern. Of a qualified type only the trait is written. -/
def patternPathDoc (show_ : Show) : Tree → Doc
  | .node .qualifiedPath [_, _, _, .node .path [lead, trait], _, _, segments] =>
    (if lead.isPresent then word "::" else nothing) ++
      sepBy (word "::") (segmentDoc show_ .inExpr) (trait.elements ++ segments.elements)
  | .node .qualifiedPath [_, _, _, _, _, _, segments] =>
    segments.elements.flatMap fun s => word "::" ++ segmentDoc show_ .inExpr s
  | p => pathDoc show_ .inExpr p

/-! ### Generics -/

/-- A parameter in angle brackets. -/
def genericParamDoc (show_ : Show) : Tree → Doc
  | .node .lifetimeParam [attrs, l, _, bounds] =>
    attrsDoc show_ attrs ++ word l.text ++
      eachFrom (fun first _ b => word (if first then ": " else " + ") ++ word b.text) true bounds.elements
  | .node .typeParam [attrs, n, _, bounds, _, dflt] =>
    attrsDoc show_ attrs ++ word n.text ++ filledBox tab (colonBoundsDoc show_ bounds ++
      if dflt.isPresent then space ++ word "= " ++ show_ (.type dflt) else nothing)
  | .node .constParam [attrs, _, n, _, t, _, dflt] =>
    attrsDoc show_ attrs ++ word "const " ++ word n.text ++ word ": " ++ show_ (.type t) ++
      if dflt.isPresent then word " = " ++ show_ (.inner dflt) else nothing
  | _ => nothing

/-- Parameters in angle brackets. -/
def genericsDoc (show_ : Show) : Tree → Doc
  | .node .generics [_, params, _] => word "<" ++ listBox 0 (genericParamDoc show_) params.elements ++ word ">"
  | _ => nothing

/-- The lifetimes of a `for<…>`. -/
def boundLifetimesDoc (show_ : Show) : Tree → Doc
  | .node .boundLifetimes [_, _, params, _] =>
    word "for<" ++ sepBy (word ", ") (genericParamDoc show_) params.elements ++ word "> "
  | _ => nothing

/-- A bound. -/
def boundDoc (show_ : Show) : Tree → Doc
  | .node .traitBound [lifetimes, modifier, p] =>
    boundLifetimesDoc show_ lifetimes ++ (if modifier.isPresent then word "?" else nothing) ++ pathDoc show_ .inType p
  | .node .parenBound [.group _ _ [b] _] => word "(" ++ show_ (.bound b) ++ word ")"
  | .node .lifetimeBound [l] => word l.text
  | .node .captureBound [_, _, params, _] =>
    word "use<" ++ sepBy (word ", ") (fun p => word p.text) params.elements ++ word ">"
  | .node .verbatimBound [.tokens ts] => passedThrough "TypeParamBound" (lineOf ts)
  | _ => nothing

/-- A predicate of a where clause. -/
def predicateDoc (show_ : Show) : Tree → Doc
  | .node .typePredicate [lifetimes, t, _, bounds] =>
    let one (first _last : Bool) (b : Tree) : Doc := (if first then word " " else space ++ word "+ ") ++ show_ (.bound b)
    boundLifetimesDoc show_ lifetimes ++ show_ (.type t) ++ word ":" ++
      filledBox (if bounds.elements.length = 1 then 0 else tab) (eachFrom one true bounds.elements)
  | .node .lifetimePredicate [l, _, bounds] =>
    let one (first _last : Bool) (b : Tree) : Doc := (if first then word " " else space ++ word "+ ") ++ word b.text
    word l.text ++ word ":" ++ filledBox tab (eachFrom one true bounds.elements)
  | _ => nothing

/-- A where clause. `ownLines` says whether each predicate stands on a line of its own, and `semi` whether
    a semicolon follows. -/
def whereDoc (show_ : Show) (ownLines semi : Bool) : Tree → Doc
  | .node .whereClause [_, predicates] =>
    let gap := if ownLines then lineBreak else space
    let one (last : Bool) (p : Tree) : Doc := predicateDoc show_ p ++
      if last && semi then nothing else if ownLines then word "," ++ lineBreak else commaOrSpace last
    gap ++ outdent ++ word "where" ++ gap ++ each one predicates.elements ++ if semi then nothing else outdent
  | _ => if semi then nothing else word " "

/-! ### Types -/

/-- The name of a calling convention. -/
def abiDoc : Tree → Doc
  | .node .abi [_, name] => word "extern " ++ if name.isPresent then word name.text ++ word " " else nothing
  | _ => nothing

/-- A word and a space, if the part is there. -/
def wordIf (part : Tree) (s : String) : Doc := if part.isPresent then word s else nothing

/-- The call of a macro. -/
def macroDoc (semicolon : Bool) : Tree → Doc
  | .node .macroCall [p, _, .group d _ [args] _] =>
    spelled p ++ word "!" ++ macroBody d args.toTokens ++ if semicolon then word ";" else nothing
  | _ => nothing

/-- Whether a macro call has its arguments in braces. -/
def isBraced : Tree → Bool
  | .node .macroCall [_, _, .group .brace _ _ _] => true
  | _ => false

/-- Elements of a tuple; a single one keeps its comma. -/
def tupleBox (f : Tree → Doc) (keepComma : Bool) (elems : List Tree) : Doc :=
  let one (last : Bool) (e : Tree) : Doc :=
    if elems.length = 1 then f e ++ (if keepComma then word "," else nothing) ++ softBreak else f e ++ comma last
  word "(" ++ uniformBox tab (softBreak ++ each one elems ++ outdent) ++ word ")"

/-- A parameter of a function type. -/
def fnTypeParamDoc (show_ : Show) : Tree → Doc
  | .node .fnTypeParam [attrs, n, _, t] =>
    attrsDoc show_ attrs ++ (if n.isPresent then word n.text ++ word ": " else nothing) ++ show_ (.type t)
  | .node .variadic [attrs, n, _, _, _] =>
    attrsDoc show_ attrs ++ (if n.isPresent then word n.text ++ word ": " else nothing) ++ word "..."
  | _ => nothing

/-- A type. -/
def typeDoc (show_ : Show) : Tree → Doc
  | .node .arrayType [.group _ _ [t, _, n] _] =>
    word "[" ++ show_ (.type t) ++ word "; " ++ show_ (.inner n) ++ word "]"
  | .node .fnType [lifetimes, danger, abi, _, .group _ _ [params] _, output] =>
    let one (last : Bool) (p : Tree) : Doc :=
      fnTypeParamDoc show_ p ++ if p.kind? == some .variadic then softBreak else comma last
    boundLifetimesDoc show_ lifetimes ++ wordIf danger "unsafe " ++ abiDoc abi ++ word "fn(" ++
      uniformBox tab (softBreak ++ each one params.elements ++ outdent) ++ word ")" ++ returnTypeDoc show_ output
  | .node .implType [_, bounds] => word "impl " ++ sepBy (word " + ") (fun b => show_ (.bound b)) bounds.elements
  | .node .inferType _ => word "_"
  | .node .macroType [call] => macroDoc false call
  | .node .neverType _ => word "!"
  | .node .parenType [.group _ _ [t] _] => word "(" ++ show_ (.type t) ++ word ")"
  | .node .pathType [p] => pathDoc show_ .inType p
  | .node .pointerType [_, m, t] => word "*" ++ word m.text ++ word " " ++ show_ (.type t)
  | .node .referenceType [_, l, m, t] =>
    word "&" ++ (if l.isPresent then word l.text ++ word " " else nothing) ++ wordIf m "mut " ++ show_ (.type t)
  | .node .sliceType [.group _ _ [t] _] => word "[" ++ show_ (.type t) ++ word "]"
  | .node .traitObjectType [_, bounds] =>
    word "dyn " ++ sepBy (word " + ") (fun b => show_ (.bound b)) bounds.elements
  | .node .tupleType [.group _ _ [types] _] => tupleBox (fun t => show_ (.type t)) true types.elements
  | .node .verbatimType [.tokens ts] => passedThrough "Type" (lineOf ts)
  | _ => nothing

/-! ### Patterns -/

/-- Whether alternatives of a kind are filled into lines rather than given a line each. -/
def isPlainCase (p : Tree) : Bool := p.kind? == some .litPat || p.kind? == some .wildPat

/-- A field of a struct pattern. -/
def fieldPatDoc (show_ : Show) : Tree → Doc
  | .node .fieldPat [attrs, m, colon, p] =>
    attrsDoc show_ attrs ++ (if colon.isPresent then word m.text ++ word ": " else nothing) ++ show_ (.pattern p)
  | _ => nothing

/-- A literal, with the minus that belongs to it. One that cannot be read is only passed through. -/
def literalDoc (l : Tree) : Doc :=
  match l with
  | .leaf (.literal t _) => if (Literal.ofText t).isNone then passedThrough "Lit" t else spelled l
  | _ => spelled l

/-- A range, of patterns or of values. -/
def rangeDoc (show_ : Show) (start limits stop : Tree) : Doc :=
  (if start.isPresent then show_ (.inner start) else [.spaceAfterDot]) ++ word limits.text ++
    if stop.isPresent then show_ (.inner stop) else nothing

/-- A pattern. -/
def patternDoc (show_ : Show) : Tree → Doc
  | .node .constPat cs => show_ (.inner (.node .constExpr cs))
  | .node .identPat [attrs, r, m, n, sub] =>
    attrsDoc show_ attrs ++ wordIf r "ref " ++ wordIf m "mut " ++ word n.text ++ match sub with
      | .node .subpattern [_, p] => word " @ " ++ show_ (.pattern p)
      | _ => nothing
  | .node .litPat [attrs, l] => attrsDoc show_ attrs ++ literalDoc l
  | .node .macroPat [attrs, call] => attrsDoc show_ attrs ++ macroDoc false call
  | .node .orPat [attrs, _, cases] =>
    let one (first _last : Bool) (p : Tree) : Doc := (if first then nothing else space ++ word "| ") ++ show_ (.pattern p)
    attrsDoc show_ attrs ++ .box 0 (!cases.elements.all isPlainCase) :: eachFrom one true cases.elements ++ [.close]
  | .node .parenPat [attrs, .group _ _ [p] _] => attrsDoc show_ attrs ++ word "(" ++ show_ (.pattern p) ++ word ")"
  | .node .pathPat [attrs, p] => attrsDoc show_ attrs ++ pathDoc show_ .inExpr p
  | .node .rangePat [attrs, start, limits, stop] => attrsDoc show_ attrs ++ rangeDoc show_ start limits stop
  | .node .referencePat [attrs, _, m, p] => attrsDoc show_ attrs ++ word "&" ++ wordIf m "mut " ++ show_ (.pattern p)
  | .node .restPat [attrs, _] => attrsDoc show_ attrs ++ word ".."
  | .node .slicePat [attrs, .group _ _ [elems] _] =>
    attrsDoc show_ attrs ++ word "[" ++ each (fun last p => show_ (.pattern p) ++ comma last) elems.elements ++ word "]"
  | .node .structPat [attrs, p, .group _ _ [fields, rest] _] =>
    let one (last : Bool) (f : Tree) : Doc := fieldPatDoc show_ f ++ commaOrSpace (last && !rest.isPresent)
    attrsDoc show_ attrs ++ uniformBox tab (patternPathDoc show_ p ++ word " \x7b" ++ spaceIfFollowed ++
      each one fields.elements ++ (if rest.isPresent then show_ (.pattern rest) ++ space else nothing) ++ outdent) ++
      word "\x7d"
  | .node .tuplePat [attrs, .group _ _ [elems] _] =>
    attrsDoc show_ attrs ++ tupleBox (fun p => show_ (.pattern p)) elems.endsSeparated elems.elements
  | .node .tupleStructPat [attrs, p, .group _ _ [elems] _] =>
    attrsDoc show_ attrs ++ patternPathDoc show_ p ++ word "(" ++
      listBox tab (fun p => show_ (.pattern p)) elems.elements ++ word ")"
  | .node .typePat [attrs, p, _, t] => attrsDoc show_ attrs ++ show_ (.pattern p) ++ word ": " ++ show_ (.type t)
  | .node .wildPat [attrs, _] => attrsDoc show_ attrs ++ word "_"
  | .node .verbatimPat [.tokens ts] => passedThrough "Pat" (lineOf ts)
  | _ => nothing

end CallProbe.Layout
