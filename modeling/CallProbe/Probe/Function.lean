import CallProbe.Layout.Item
import CallProbe.Probe.Marker
import CallProbe.Source.Grammar
import CallProbe.Source.Make

/-! # Functions

A function as it is probed: a free function, a method, or the declaration of one without a body. -/

namespace CallProbe.Probe

open Source

/-- A function. Inner attributes of the body are among `attrs`. -/
structure Function where
  attrs : List Tree
  vis : Tree
  sig : Tree
  body : Option Tree

namespace Function

/-- An attribute in front of what it applies to. -/
def outerStyle : Tree → Tree
  | .node .attr [pound, _, content] => .node .attr [pound, .absent, content]
  | t => t

/-- A block without its inner attributes, and these. -/
def splitBody : Tree → Tree × List Tree
  | .node .block [.group d o [attrs, stmts] c] => (.node .block [.group d o [.noAttrs, stmts] c], attrs.attrList)
  | t => (t, [])

/-- Reads a function. Inner attributes of its body apply to the function and become outer ones. -/
def reader (reach : Reach) : Parser Function := do
  let attrs ← Parse.outerAttrs reach
  let vis ← Parse.visibility
  let sig ← Parse.signature reach
  if Ahead.symbol ";" (← get) then
    let _ ← Parse.symbol ";"
    return ⟨attrs.attrList, vis, sig, none⟩
  let (body, inner) := splitBody (← reach (.block true))
  return ⟨attrs.attrList ++ inner.map outerStyle, vis, sig, some body⟩

/-- Reads a function from tokens. -/
def parse (ts : List TokenTree) : Except Fault Function := Grammar.parseWith reader ts

/-- The function that reading the text of a function gives. -/
def grouped (f : Function) : Function :=
  ⟨f.attrs.map Tree.grouped, f.vis, f.sig.grouped, f.body.map Tree.grouped⟩

/-- The tokens of the text of a function. -/
def toTokens (f : Function) : List TokenTree :=
  f.attrs.flatMap Tree.written ++ f.vis.toTokens ++ f.sig.written ++ match f.body with
    | some body => body.written
    | none => [.punct ';' false Pos.none]

/-- The name of a function. -/
def name (f : Function) : String :=
  match f.sig with
  | .node .signature [_, _, _, _, _, n, _, _, _, _] => n.text
  | _ => ""

/-- Whether a function is evaluated at compile time. -/
def isConst (f : Function) : Bool :=
  match f.sig with
  | .node .signature (c :: _) => c.isPresent
  | _ => false

/-- Whether a function is asynchronous. -/
def isAsync (f : Function) : Bool :=
  match f.sig with
  | .node .signature (_ :: a :: _) => a.isPresent
  | _ => false

/-- The type that a function is declared to return. -/
def returnType? (f : Function) : Option Tree :=
  match f.sig with
  | .node .signature [_, _, _, _, _, _, _, _, .node .returnType [_, t], _] => some t
  | _ => none

/-- A block with inner attributes put at its start. -/
def withInnerAttrs (attrs : List Tree) : Tree → Tree
  | .node .block [.group d o [_, stmts] c] => .node .block [.group d o [.node .attrs attrs, stmts] c]
  | t => t

/-- A function with a body as an item. -/
def toItem (f : Function) (body : Tree) : Tree :=
  .node .fnItem [.node .attrs (f.attrs.filter (!isInnerAttr ·)), f.vis, f.sig,
    withInnerAttrs (f.attrs.filter isInnerAttr) body]

/-- The text of a function with a body. -/
def render (f : Function) (body : Tree) : Except Layout.Unprintable String :=
  Layout.textOfItems .noAttrs [f.toItem body]

/-- The attribute `#[name(argument)]`. -/
def listAttr (name argument : String) : Tree :=
  .node .attr [Make.symbol "#", .absent, .group .bracket Pos.none
    [.node .metaList [Make.path false [name], .group .paren Pos.none [.tokens [.ident argument Pos.none]] Pos.none]] Pos.none]

/-- Whether one of the attributes is the given one. -/
def hasAttr (f : Function) (attr : Tree) : Bool := f.attrs.any (·.same attr)

/-- Allows unreachable code in a function, once: around a call that never returns, the generated call is
    unreachable where the call alone was not. -/
def allowUnreachable (f : Function) : Function :=
  let allow := listAttr "allow" "unreachable_code"
  if f.hasAttr allow then f else { f with attrs := f.attrs ++ [allow] }

/-- The function without the first attribute that is the given one. -/
def strip? (f : Function) (attr : Tree) : Option Function :=
  if f.hasAttr attr then some { f with attrs := f.attrs.eraseP (·.same attr) } else none

end Function

end CallProbe.Probe
