import CallProbe.Source.Tree
import CallProbe.Text.Quoted

/-! # Making trees

The trees of code that is generated rather than read. Tokens that stand in no text get the place given. -/

namespace CallProbe.Source.Make

def word (w : String) (pos : Pos := Pos.none) : Tree := .leaf (.word w pos)

def symbol (s : String) (pos : Pos := Pos.none) : Tree := .leaf (.symbol s pos)

def parens (content : List Tree) (pos : Pos := Pos.none) : Tree := .group .paren pos content pos

/-- Elements with commas between them. -/
def separated (elems : List Tree) (pos : Pos := Pos.none) : List Tree := elems.intersperse (symbol "," pos)

/-- Elements with a comma after each. -/
def terminated (elems : List Tree) : List Tree := elems.flatMap fun e => [e, symbol ","]

/-- A path of names. -/
def path (fromRoot : Bool) (names : List String) (pos : Pos := Pos.none) : Tree :=
  .node .path [if fromRoot then symbol "::" pos else .absent,
    .list ((names.map fun n => Tree.node .segment [word n pos, .absent]).intersperse (symbol "::" pos))]

/-- A path that starts at the root, as an expression. -/
def rootPath (names : List String) (pos : Pos := Pos.none) : Tree := .node .pathExpr [.noAttrs, path true names pos]

/-- A name as an expression. -/
def nameExpr (n : String) : Tree := .node .pathExpr [.noAttrs, path false [n]]

/-- A path that starts at the root, as a type. -/
def rootType (names : List String) : Tree := .node .pathType [path true names]

/-- A literal as an expression. -/
def literal (text : String) : Tree := .node .litExpr [.noAttrs, .leaf (.literal text Pos.none)]

/-- A string as an expression. -/
def string (s : String) : Tree := literal (Text.quote s)

/-- A call. -/
def call (callee : Tree) (args : List Tree) (pos : Pos := Pos.none) : Tree :=
  .node .callExpr [.noAttrs, callee, parens [.list args] pos]

/-- A shared reference to a name. -/
def reference (n : String) : Tree := .node .referenceExpr [.noAttrs, symbol "&", .absent, nameExpr n]

/-- A static with its value. -/
def staticItem (n : String) (type value : Tree) : Tree :=
  .node .staticItem [.noAttrs, .absent, word "static", .absent, word n, symbol ":", type, symbol "=", value, symbol ";"]

/-- A block. -/
def block (stmts : List Tree) : Tree :=
  .node .block [.group .brace Pos.none [.noAttrs, .node .stmts stmts] Pos.none]

/-- A block as an expression. -/
def blockExpr (stmts : List Tree) : Tree := .node .blockExpr [.noAttrs, .absent, block stmts]

/-- An item as a statement. -/
def itemStmt (i : Tree) : Tree := .node .itemStmt [i]

/-- An expression at the end of a block. -/
def lastExpr (e : Tree) : Tree := .node .exprStmt [e, .absent]

/-- A pattern that is a name. -/
def namePat (n : String) : Tree := .node .identPat [.noAttrs, .absent, .absent, word n, .absent]

/-- A binding of a pattern to a value. -/
def letStmt (pat value : Tree) : Tree :=
  .node .letStmt [.noAttrs, word "let", pat, .node .letInit [symbol "=", value, .absent], symbol ";"]

/-- The call of a macro under a path from the root, without arguments. -/
def rootMacro (names : List String) : Tree :=
  .node .macroExpr [.noAttrs, .node .macroCall [path true names, symbol "!", parens [.tokens []]]]

end CallProbe.Source.Make
