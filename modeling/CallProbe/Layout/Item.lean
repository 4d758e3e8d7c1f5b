import CallProbe.Layout.Expr
import CallProbe.Source.Grouping

/-! # Layout of items -/

namespace CallProbe.Layout

open Source

/-- Whether a path is the word for the crate, the module, or the one around it. -/
def isNearModule : Tree → Bool
  | .node .path [.node .absent _, .node .list [.node .segment [n, _]]] => ["self", "super", "crate"].contains n.text
  | _ => false

/-- Visibility, with the space after it. -/
def visDoc : Tree → Doc
  | .node .publicVis _ => word "pub "
  | .node .restrictedVis [_, .group _ _ [w] _] => word "pub(" ++ word w.text ++ word ") "
  | .node .restrictedVis [_, .group _ _ [_, p] _] =>
    word (if isNearModule p then "pub(" else "pub(in ") ++ spelled p ++ word ") "
  | _ => nothing

/-- A parameter of a function. -/
def paramDoc (show_ : Show) : Tree → Doc
  | .node .receiver [attrs, ref, m, _, colon, t] =>
    let refDoc := match ref with
      | .node .receiverRef [_, l] => word "&" ++ if l.isPresent then word l.text ++ word " " else nothing
      | _ => nothing
    attrsDoc show_ attrs ++ refDoc ++ wordIf m "mut " ++ word "self" ++
      if colon.isPresent then word ": " ++ show_ (.type t) else nothing
  | .node .variadic [attrs, p, _, _, _] =>
    attrsDoc show_ attrs ++ (if p.isPresent then show_ (.pattern p) ++ word ": " else nothing) ++ word "..."
  | p => show_ (.pattern p)

/-- A signature up to its where clause. -/
def signatureDoc (show_ : Show) : Tree → Doc
  | .node .signature [c, a, u, abi, _, n, gs, .group _ _ [params] _, output, _] =>
    let one (last : Bool) (p : Tree) : Doc :=
      paramDoc show_ p ++ if p.kind? == some .variadic then softBreak else comma last
    wordIf c "const " ++ wordIf a "async " ++ wordIf u "unsafe " ++ abiDoc abi ++ word "fn " ++ word n.text ++
      genericsDoc show_ gs ++ word "(" ++ noBreak ++
      uniformBox 0 (softBreak ++ each one params.elements ++ outdent) ++ word ")" ++
      uniformBox (-tab) (returnTypeDoc show_ output)
  | _ => nothing

/-- The where clause of a signature. -/
def signatureWhere : Tree → Tree
  | .node .signature [_, _, _, _, _, _, _, _, _, w] => w
  | _ => .absent

/-- A body of statements or items after its opening brace, inside the box of its item. -/
def openBody (show_ : Show) (attrs : Tree) (content : Doc) : Doc :=
  word "\x7b" ++ lineBreakIfFollowed ++ attrsDoc show_ attrs ++ content ++ outdent

/-- A function with its body. -/
def fnDoc (show_ : Show) (front : Doc) (sig block : Tree) : Doc :=
  let (attrs, ss) := blockParts block
  uniformBox tab (front ++ signatureDoc show_ sig ++ whereDoc show_ true false (signatureWhere sig) ++
    openBody show_ attrs (stmtsDoc show_ ss)) ++ word "\x7d" ++ lineBreak

/-- A function without a body. -/
def fnDeclDoc (show_ : Show) (front : Doc) (sig : Tree) : Doc :=
  uniformBox tab (front ++ signatureDoc show_ sig ++ whereDoc show_ true true (signatureWhere sig) ++ word ";") ++ lineBreak

/-- A field. -/
def fieldDoc (show_ : Show) : Tree → Doc
  | .node .field [attrs, vis, n, _, t] =>
    attrsDoc show_ attrs ++ visDoc vis ++ (if n.isPresent then word n.text ++ word ": " else nothing) ++ show_ (.type t)
  | _ => nothing

/-- Fields without names, in parentheses. -/
def tupleFieldsDoc (show_ : Show) (fields : List Tree) : Doc :=
  word "(" ++ softBreak ++ each (fun last f => fieldDoc show_ f ++ comma last) fields ++ outdent ++ word ")"

/-- Elements on lines of their own, in braces. -/
def bracedLines (f : Tree → Doc) (elems : List Tree) : Doc :=
  word "\x7b" ++ lineBreakIfFollowed ++ elems.flatMap (fun e => f e ++ word "," ++ lineBreak) ++ outdent

/-- A variant of an enumeration. -/
def variantDoc (show_ : Show) : Tree → Doc
  | .node .variant [attrs, n, fields, disc] =>
    let fieldsDoc := match fields with
      | .group .brace _ [fs] _ =>
        word " \x7b" ++ uniformBox tab (space ++ each (fun last f => fieldDoc show_ f ++ commaOrSpace last) fs.elements ++
          outdent) ++ word "\x7d"
      | .group _ _ [fs] _ => uniformBox tab (tupleFieldsDoc show_ fs.elements)
      | _ => nothing
    let discDoc := match disc with
      | .node .discriminant [_, e] => word " = " ++ show_ (.inner e)
      | _ => nothing
    attrsDoc show_ attrs ++ word n.text ++ fieldsDoc ++ discDoc
  | _ => nothing

/-- Whether a use tree ends in braces. -/
def endsInGroup : Tree → Bool
  | .node .usePath [_, _, t] => endsInGroup t
  | .node .useGroup _ => true
  | _ => false

/-- Whether a use tree brings in the module that its path leads to. -/
def isModuleItself : Tree → Bool
  | .node .useName [n] | .node .useRename [n, _, _] => n.text == "self"
  | _ => false

/-- Use trees in braces. -/
def bracedUse (trees : Doc) : Doc :=
  word "\x7b" ++ uniformBox tab (softBreak ++ filledBox 0 trees ++ comma true ++ outdent) ++ word "\x7d"

/-- What a `use` brings in. Braces around a single tree are left out, unless it is the module itself. -/
def useDoc : Tree → Doc
  | .node .usePath [n, _, t] => word n.text ++ word "::" ++ useDoc t
  | .node .useName [n] => word n.text
  | .node .useRename [n, _, m] => word n.text ++ word " as " ++ word m.text
  | .node .useGlob _ => word "*"
  | .node .useGroup [.group _ _ [.node .list []] _] => word "\x7b\x7d"
  | .node .useGroup [.group _ _ [.node .list ts] _] =>
    if ts.length = 1 ∨ ts.length = 2 then
      if ts.head?.any isModuleItself then bracedUse (useDocs ts) else useDocs ts
    else bracedUse (useDocs ts)
  | _ => nothing
where
  useDocs : List Tree → Doc
    | [] => nothing
    | [t] => useDoc t
    | [t, _] => useDoc t
    | t :: _ :: rest => useDoc t ++ word "," ++ (if endsInGroup t then lineBreak else space) ++ useDocs rest

/-- A constant or static, with what stands before its name. -/
def constDoc (show_ : Show) (front : Doc) (n t value : Tree) : Doc :=
  let valueDoc := if value.isPresent then word " = " ++ noBreak ++ show_ (.inner value) else nothing
  uniformBox 0 (front ++ word n.text ++ word ": " ++ show_ (.type t) ++ valueDoc ++ word ";") ++ lineBreak

/-- A body of items in braces, inside the box of its item, and the closing brace. -/
def itemsDoc (show_ : Show) (place : ItemPlace) : Tree → Doc
  | .group _ _ [attrs, .node .items is] _ => openBody show_ attrs (is.flatMap fun i => show_ (.item i place))
  | _ => nothing

/-- Supertraits after a colon. -/
def supertraitsDoc (show_ : Show) (bounds : Tree) : Doc :=
  eachFrom (fun first _ b => word (if first then ": " else " + ") ++ show_ (.bound b)) true bounds.elements

/-- A type alias or associated type with its definition. -/
def definedTypeDoc (show_ : Show) (t : Tree) : Doc := noBreak ++ filledBox (-tab) (show_ (.type t))

/-- An item or member without the attributes in front of it. -/
def bareItemDoc (show_ : Show) (place : ItemPlace) : Tree → Doc
  | .node .fnItem [_, vis, sig, block] => fnDoc show_ (visDoc vis) sig block
  | .node .methodItem [_, vis, dflt, sig, block] => fnDoc show_ (visDoc vis ++ wordIf dflt "default ") sig block
  | .node .traitFn [_, sig, body] => match body with
    | .node .block _ => fnDoc show_ nothing sig body
    | _ => fnDeclDoc show_ nothing sig
  | .node .foreignFn [_, vis, sig, _] => fnDeclDoc show_ (visDoc vis) sig
  | .node .modItem [_, vis, u, _, n, body] =>
    let front := visDoc vis ++ wordIf u "unsafe " ++ word "mod " ++ word n.text
    match body with
    | .group _ _ _ _ => uniformBox tab (front ++ word " " ++ itemsDoc show_ .module body) ++ word "\x7d" ++ lineBreak
    | _ => uniformBox tab (front ++ word ";") ++ lineBreak
  | .node .implItem [_, dflt, u, _, gs, of, self, w, body] =>
    let ofDoc := match of with
      | .node .implTrait [bang, p, _] => wordIf bang "!" ++ pathDoc show_ .inType p ++ space ++ word "for "
      | _ => nothing
    uniformBox tab (filledBox (-tab) (uniformBox tab (wordIf dflt "default " ++ wordIf u "unsafe " ++ word "impl" ++
      genericsDoc show_ gs) ++ word " " ++ ofDoc ++ show_ (.type self)) ++ whereDoc show_ true false w ++
      itemsDoc show_ .impl body) ++ word "\x7d" ++ lineBreak
  | .node .traitItem [_, vis, u, a, _, n, gs, _, bounds, w, body] =>
    uniformBox tab (visDoc vis ++ wordIf u "unsafe " ++ wordIf a "auto " ++ word "trait " ++ word n.text ++
      genericsDoc show_ gs ++ supertraitsDoc show_ bounds ++ whereDoc show_ true false w ++ itemsDoc show_ .trait body) ++
      word "\x7d" ++ lineBreak
  | .node .traitAliasItem [_, vis, _, n, gs, _, bounds, w, _] =>
    uniformBox tab (visDoc vis ++ word "trait " ++ word n.text ++ genericsDoc show_ gs ++ word " = " ++ noBreak ++
      sepBy (space ++ word "+ ") (fun b => show_ (.bound b)) bounds.elements ++ whereDoc show_ true true w ++ word ";") ++
      lineBreak
  | .node .constItem [_, vis, _, n, _, t, _, value, _] => constDoc show_ (visDoc vis ++ word "const ") n t value
  | .node .assocConst [_, vis, dflt, _, n, _, t, _, value, _] =>
    constDoc show_ (visDoc vis ++ wordIf dflt "default " ++ word "const ") n t value
  | .node .traitConst [_, _, n, _, t, value, _] =>
    constDoc show_ (word "const ") n t (match value with
      | .node .defaultValue [_, e] => e
      | _ => .absent)
  | .node .staticItem [_, vis, _, m, n, _, t, _, value, _] =>
    constDoc show_ (visDoc vis ++ word "static " ++ wordIf m "mut ") n t value
  | .node .foreignStatic [_, vis, _, m, n, _, t, _] =>
    constDoc show_ (visDoc vis ++ word "static " ++ wordIf m "mut ") n t .absent
  | .node .structItem [_, vis, _, n, gs, early, fields, late, _] =>
    let front := visDoc vis ++ word "struct " ++ word n.text ++ genericsDoc show_ gs
    match fields with
    | .group .brace _ [fs] _ =>
      uniformBox tab (front ++ whereDoc show_ true false early ++ bracedLines (fieldDoc show_) fs.elements) ++
        word "\x7d" ++ lineBreak
    | .group _ _ [fs] _ =>
      uniformBox tab (front ++ tupleFieldsDoc show_ fs.elements ++ whereDoc show_ true true late ++ word ";") ++ lineBreak
    | _ => uniformBox tab (front ++ whereDoc show_ true true early ++ word ";") ++ lineBreak
  | .node .enumItem [_, vis, _, n, gs, w, .group _ _ [variants] _] =>
    uniformBox tab (visDoc vis ++ word "enum " ++ word n.text ++ genericsDoc show_ gs ++ whereDoc show_ true false w ++
      bracedLines (variantDoc show_) variants.elements) ++ word "\x7d" ++ lineBreak
  | .node .unionItem [_, vis, _, n, gs, w, .group _ _ [fields] _] =>
    uniformBox tab (visDoc vis ++ word "union " ++ word n.text ++ genericsDoc show_ gs ++ whereDoc show_ true false w ++
      bracedLines (fieldDoc show_) fields.elements) ++ word "\x7d" ++ lineBreak
  | .node .typeItem [_, vis, _, n, gs, w, _, t, _] =>
    uniformBox tab (visDoc vis ++ word "type " ++ word n.text ++ genericsDoc show_ gs ++ whereDoc show_ false false w ++
      word "= " ++ definedTypeDoc show_ t ++ word ";") ++ lineBreak
  | .node .assocType [_, vis, dflt, _, n, gs, _, t, w, _] =>
    uniformBox tab (visDoc vis ++ wordIf dflt "default " ++ word "type " ++ word n.text ++ genericsDoc show_ gs ++
      word " = " ++ definedTypeDoc show_ t ++ whereDoc show_ false true w ++ word ";") ++ lineBreak
  | .node .traitType [_, _, n, gs, _, bounds, dflt, w, _] =>
    let dfltDoc := match dflt with
      | .node .defaultValue [_, t] => word " = " ++ definedTypeDoc show_ t
      | _ => nothing
    uniformBox tab (word "type " ++ word n.text ++ genericsDoc show_ gs ++ colonBoundsDoc show_ bounds ++ dfltDoc ++
      whereDoc show_ false true w ++ word ";") ++ lineBreak
  | .node .foreignType [_, vis, _, n, gs, _, _] =>
    uniformBox 0 (visDoc vis ++ word "type " ++ word n.text ++ genericsDoc show_ gs ++ word ";") ++ lineBreak
  | .node .useItem [_, vis, _, lead, t, _] =>
    visDoc vis ++ word "use " ++ wordIf lead "::" ++ useDoc t ++ word ";" ++ lineBreak
  | .node .externCrateItem [_, vis, _, _, n, rename, _] =>
    let renameDoc := match rename with
      | .node .rename [_, m] => word " as " ++ word m.text
      | _ => nothing
    visDoc vis ++ word "extern crate " ++ word n.text ++ renameDoc ++ word ";" ++ lineBreak
  | .node .foreignModItem [_, u, abi, body] =>
    uniformBox tab (wordIf u "unsafe " ++ abiDoc abi ++ itemsDoc show_ .foreign body) ++ word "\x7d" ++ lineBreak
  | .node .macroItem [_, p, _, n, .group d _ [args] _, _] =>
    let named := if n.isPresent then word " " ++ word n.text else nothing
    if n.isPresent && p.toTokens.map TokenTree.spellings == [["macro_rules"]] then
      macroRules n.text args.toTokens ++ lineBreak
    else
      spelled p ++ word "!" ++ named ++ macroBody d args.toTokens ++ (if d = .brace then nothing else word ";") ++ lineBreak
  | .node .macroMember [_, call, _] => macroDoc (!isBraced call) call ++ lineBreak
  | .node .verbatimItem [.tokens ts] => passedThrough place.text (lineOf ts)
  | _ => nothing

/-- An item or member. -/
def itemDoc (show_ : Show) (place : ItemPlace) (i : Tree) : Doc :=
  attrsDoc show_ (outerAttrs i) ++ bareItemDoc show_ place i

/-! ### Whole texts -/

/-- The layout of a form. -/
def formDoc (show_ : Show) : Form → Doc
  | .expr e lineStart => exprDoc show_ lineStart e
  | .chained e lineStart => chainedDoc show_ lineStart e
  | .pattern p => patternDoc show_ p
  | .type t => typeDoc show_ t
  | .bound b => boundDoc show_ b
  | .args a => angleArgsDoc show_ .inType a
  | .stmt s last => stmtDoc show_ last s
  | .item i place => itemDoc show_ place i

/-- Lays out forms nested at most as deep as the given number. -/
def layoutFuel : Nat → Show
  | 0, _ => nothing
  | n + 1, f => formDoc (layoutFuel n) f

/-- Lays out forms nested as deep as their trees can nest them. -/
def layout : Show := fun f => layoutFuel (4 * f.tree.size + 16) f

/-- The layout of inner attributes and items, in which a cautious writer keeps expressions apart. -/
def itemsLayout (attrs : Tree) (items : List Tree) : Doc :=
  uniformBox 0 (attrsDoc layout (Grouping.tree .most {} attrs) ++
    (Grouping.trees .most items).flatMap (itemDoc layout .module))

/-- The text of inner attributes and items, if all that is written of them has a layout. -/
def textOfItems (attrs : Tree) (items : List Tree) : Except Unprintable String := text (itemsLayout attrs items)

/-- The text of a file. -/
def textOfFile : Tree → Except Unprintable String
  | .node .file [attrs, .node .items items] => textOfItems attrs items
  | _ => .ok ""

end CallProbe.Layout
