import CallProbe.Source.Token

/-! # Syntax trees

A tree that loses nothing: its leaves, read from left to right, are the tokens of the text. A node has a
kind and children in the order in which they are written, one place for each part of that kind; a part
that is left out is an `absent` node, a repeated part a `list` node that holds its separators too. What
walks a program, and what prints it, tells the parts apart by kind and place.

The arguments of a call of a macro such as `println!` are kept twice where they read as expressions: as
the tokens that were written, and as trees. -/

namespace CallProbe.Source

/-- A single word or operator. -/
inductive Leaf where
  | word (text : String) (pos : Pos)
  | lifetime (text : String) (pos : Pos)
  | literal (text : String) (pos : Pos)
  | symbol (text : String) (pos : Pos)

/-- The kinds of nodes. The comment gives the children, `?` for a part that may be absent. -/
inductive Kind where
  /-- A part that is left out. -/
  | absent
  /-- Elements with their separators. -/
  | list
  /-- Attributes, all outer or all inner. -/
  | attrs
  /-- `#`, `!`?, `[ meta ]` -/
  | attr
  /-- path -/
  | metaPath
  /-- path, bracketed tokens -/
  | metaList
  /-- path, `=`, expression -/
  | metaNameValue
  /-- `::`?, segments -/
  | path
  /-- `<`, type, `as`?, path?, `>`, `::`, segments -/
  | qualifiedPath
  /-- name, arguments? -/
  | segment
  /-- `::`?, `<`, arguments, `>` -/
  | angleArgs
  /-- `( types )`, return type? -/
  | parenArgs
  | lifetimeArg
  | typeArg
  | constArg
  /-- name, arguments?, `=`, type -/
  | assocTypeArg
  /-- name, arguments?, `=`, expression -/
  | assocConstArg
  /-- name, arguments?, `:`, bounds -/
  | constraintArg
  /-- `->`, type -/
  | returnType
  /-- `-`, literal -/
  | negative
  /-- path, `!`, bracketed arguments -/
  | macroCall
  /-- `{ inner attributes, statements }` -/
  | block
  /-- lifetime, `:` -/
  | label
  /-- attributes, `[ elements ]` -/
  | arrayExpr
  /-- attributes, left, `=`, right -/
  | assignExpr
  /-- attributes, `async`, `move`?, block -/
  | asyncExpr
  /-- attributes, base, `.`, `await` -/
  | awaitExpr
  /-- attributes, left, operator, right -/
  | binaryExpr
  /-- attributes, label?, block -/
  | blockExpr
  /-- attributes, `break`, lifetime?, value? -/
  | breakExpr
  /-- attributes, callee, `( arguments )` -/
  | callExpr
  /-- attributes, value, `as`, type -/
  | castExpr
  /-- attributes, `for<…>`?, `const`?, `static`?, `async`?, `move`?, `|`, parameters, `|`, return type?, body -/
  | closureExpr
  /-- attributes, `const`, block -/
  | constExpr
  /-- attributes, `continue`, lifetime? -/
  | continueExpr
  /-- attributes, base, `.`, member -/
  | fieldExpr
  /-- attributes, label?, `for`, pattern, `in`, iterated, block -/
  | forExpr
  /-- attributes, `if`, condition, block, else branch? -/
  | ifExpr
  /-- `else`, expression -/
  | elseBranch
  /-- attributes, base, `[ key ]` -/
  | indexExpr
  /-- attributes, `_` -/
  | inferExpr
  /-- attributes, `let`, pattern, `=`, value -/
  | letExpr
  /-- attributes, literal -/
  | litExpr
  /-- attributes, label?, `loop`, block -/
  | loopExpr
  /-- attributes, macro call -/
  | macroExpr
  /-- attributes, `match`, value, `{ inner attributes, arms }` -/
  | matchExpr
  /-- arms -/
  | arms
  /-- attributes, pattern, guard?, `=>`, body, `,`? -/
  | arm
  /-- `if`, condition -/
  | guard
  /-- attributes, receiver, `.`, method, generic arguments?, `( arguments )` -/
  | methodCallExpr
  /-- attributes, `( expression )` -/
  | parenExpr
  /-- attributes, path -/
  | pathExpr
  /-- attributes, start?, limits, end? -/
  | rangeExpr
  /-- attributes, `&`, `raw`, `const` or `mut`, expression -/
  | rawAddrExpr
  /-- attributes, `&`, `mut`?, expression -/
  | referenceExpr
  /-- attributes, `[ element ; length ]` -/
  | repeatExpr
  /-- attributes, `return`, value? -/
  | returnExpr
  /-- attributes, path, `{ fields, `..`?, base? }` -/
  | structExpr
  /-- attributes, member, `:`?, value? -/
  | fieldValue
  /-- attributes, expression, `?` -/
  | tryExpr
  /-- attributes, `try`, block -/
  | tryBlockExpr
  /-- attributes, `( elements )` -/
  | tupleExpr
  /-- attributes, operator, expression -/
  | unaryExpr
  /-- attributes, `unsafe`, block -/
  | unsafeBlockExpr
  /-- attributes, label?, `while`, condition, block -/
  | whileExpr
  /-- attributes, `yield`, value? -/
  | yieldExpr
  /-- The expression of a lone `;`. -/
  | emptyExpr
  /-- tokens of an expression that is only passed through -/
  | verbatimExpr
  /-- statements -/
  | stmts
  /-- attributes, `let`, pattern, initializer?, `;` -/
  | letStmt
  /-- `=`, value, else branch? -/
  | letInit
  /-- item -/
  | itemStmt
  /-- expression, `;`? -/
  | exprStmt
  /-- attributes, macro call, `;`? -/
  | macroStmt
  /-- attributes, `const`, block -/
  | constPat
  /-- attributes, `ref`?, `mut`?, name, subpattern? -/
  | identPat
  /-- `@`, pattern -/
  | subpattern
  /-- attributes, literal -/
  | litPat
  /-- attributes, macro call -/
  | macroPat
  /-- attributes, `|`?, cases -/
  | orPat
  /-- attributes, `( pattern )` -/
  | parenPat
  /-- attributes, path -/
  | pathPat
  /-- attributes, start?, limits, end? -/
  | rangePat
  /-- attributes, `&`, `mut`?, pattern -/
  | referencePat
  /-- attributes, `..` -/
  | restPat
  /-- attributes, `[ elements ]` -/
  | slicePat
  /-- attributes, path, `{ fields, rest? }` -/
  | structPat
  /-- attributes, member?, `:`?, pattern -/
  | fieldPat
  /-- attributes, `( elements )` -/
  | tuplePat
  /-- attributes, path, `( elements )` -/
  | tupleStructPat
  /-- attributes, pattern, `:`, type -/
  | typePat
  /-- attributes, `_` -/
  | wildPat
  /-- tokens of a pattern that is only passed through -/
  | verbatimPat
  /-- `[ type ; length ]` -/
  | arrayType
  /-- `for<…>`?, `unsafe`?, ABI?, `fn`, `( parameters, variadic? )`, return type? -/
  | fnType
  /-- attributes, name?, `:`?, type -/
  | fnTypeParam
  /-- `impl`, bounds -/
  | implType
  | inferType
  /-- macro call -/
  | macroType
  | neverType
  /-- `( type )` -/
  | parenType
  /-- path -/
  | pathType
  /-- `*`, `const` or `mut`, type -/
  | pointerType
  /-- `&`, lifetime?, `mut`?, type -/
  | referenceType
  /-- `[ type ]` -/
  | sliceType
  /-- `dyn`?, bounds -/
  | traitObjectType
  /-- `( types )` -/
  | tupleType
  /-- tokens of a type that is only passed through -/
  | verbatimType
  /-- `for`, `<`, parameters, `>` -/
  | boundLifetimes
  /-- `for<…>`?, `?`?, path -/
  | traitBound
  /-- `( bound )` -/
  | parenBound
  | lifetimeBound
  /-- `use`, `<`, names, `>` -/
  | captureBound
  /-- tokens of a bound that is only passed through -/
  | verbatimBound
  /-- `<`, parameters, `>` -/
  | generics
  /-- attributes, lifetime, `:`?, bounds -/
  | lifetimeParam
  /-- attributes, name, `:`?, bounds, `=`?, type? -/
  | typeParam
  /-- attributes, `const`, name, `:`, type, `=`?, value? -/
  | constParam
  /-- `where`, predicates -/
  | whereClause
  /-- `for<…>`?, type, `:`, bounds -/
  | typePredicate
  /-- lifetime, `:`, lifetimes -/
  | lifetimePredicate
  /-- `const`?, `async`?, `unsafe`?, ABI?, `fn`, name, generics?, `( parameters, variadic? )`, return type?, where clause? -/
  | signature
  /-- `extern`, name? -/
  | abi
  /-- attributes, reference?, `mut`?, `self`, `:`?, type? -/
  | receiver
  /-- `&`, lifetime? -/
  | receiverRef
  /-- attributes, pattern?, `:`?, `...`, `,`? -/
  | variadic
  /-- `pub` -/
  | publicVis
  /-- `pub`, `( in? path )` -/
  | restrictedVis
  /-- inner attributes, items -/
  | file
  /-- items, or members of a trait or an implementation -/
  | items
  /-- attributes, visibility?, signature, block -/
  | fnItem
  /-- attributes, visibility?, `unsafe`?, `mod`, name, `{ inner attributes, items }` or `;` -/
  | modItem
  /-- attributes, `default`?, `unsafe`?, `impl`, generics?, trait?, type, where clause?, `{ inner attributes, items }` -/
  | implItem
  /-- `!`?, path, `for` -/
  | implTrait
  /-- attributes, visibility?, `unsafe`?, `auto`?, `trait`, name, generics?, `:`?, bounds, where clause?, `{ inner attributes, items }` -/
  | traitItem
  /-- attributes, visibility?, `trait`, name, generics?, `=`, bounds, where clause?, `;` -/
  | traitAliasItem
  /-- attributes, visibility?, `const`, name, `:`, type, `=`, value, `;` -/
  | constItem
  /-- attributes, visibility?, `static`, `mut`?, name, `:`, type, `=`, value, `;` -/
  | staticItem
  /-- attributes, visibility?, `struct`, name, generics?, where clause?, fields?, where clause?, `;`? -/
  | structItem
  /-- attributes, visibility?, `enum`, name, generics?, where clause?, `{ variants }` -/
  | enumItem
  /-- attributes, name, fields?, discriminant? -/
  | variant
  /-- `=`, expression -/
  | discriminant
  /-- attributes, visibility?, `union`, name, generics?, where clause?, `{ fields }` -/
  | unionItem
  /-- attributes, visibility?, name?, `:`?, type -/
  | field
  /-- attributes, visibility?, `type`, name, generics?, where clause?, `=`, type, `;` -/
  | typeItem
  /-- attributes, visibility?, `use`, `::`?, tree, `;` -/
  | useItem
  /-- name, `::`, tree -/
  | usePath
  /-- name -/
  | useName
  /-- name, `as`, name -/
  | useRename
  /-- `*` -/
  | useGlob
  /-- `{ trees }` -/
  | useGroup
  /-- attributes, visibility?, `extern`, `crate`, name, new name?, `;` -/
  | externCrateItem
  /-- `as`, name -/
  | rename
  /-- attributes, `unsafe`?, ABI, `{ inner attributes, items }` -/
  | foreignModItem
  /-- attributes, path, `!`, name?, bracketed tokens, `;`? -/
  | macroItem
  /-- tokens of an item or member that is only passed through -/
  | verbatimItem
  /-- attributes, visibility?, signature, `;` -/
  | foreignFn
  /-- attributes, visibility?, `static`, `mut`?, name, `:`, type, `;` -/
  | foreignStatic
  /-- attributes, visibility?, `type`, name, generics?, where clause?, `;` -/
  | foreignType
  /-- attributes, macro call, `;`? -/
  | macroMember
  /-- attributes, visibility?, `default`?, signature, block -/
  | methodItem
  /-- attributes, visibility?, `default`?, `const`, name, `:`, type, `=`, value, `;` -/
  | assocConst
  /-- attributes, visibility?, `default`?, `type`, name, generics?, `=`, type, where clause?, `;` -/
  | assocType
  /-- attributes, signature, block or `;` -/
  | traitFn
  /-- attributes, `const`, name, `:`, type, default?, `;` -/
  | traitConst
  /-- attributes, `type`, name, generics?, `:`?, bounds, default?, where clause?, `;` -/
  | traitType
  /-- `=`, expression or type -/
  | defaultValue
deriving DecidableEq, Repr

/-- A syntax tree. -/
inductive Tree where
  | leaf (leaf : Leaf)
  | tokens (tokens : List TokenTree)
  | arguments (written : List TokenTree) (read : List Tree)
  | group (delim : Delimiter) (opened : Pos) (content : List Tree) (closed : Pos)
  | node (kind : Kind) (children : List Tree)

/-- The tokens of a leaf. -/
def Leaf.toTokens : Leaf → List TokenTree
  | word t p => [.ident t p]
  | lifetime t p => [.lifetime t p]
  | literal t p => [.literal t p]
  | symbol t p => operatorTokens p t.toList

/-- The text of a leaf. -/
def Leaf.text : Leaf → String
  | word t _ | lifetime t _ | literal t _ | symbol t _ => t

/-- Equality of leaves, places left aside. -/
def Leaf.same : Leaf → Leaf → Bool
  | word a _, word b _ => a == b
  | lifetime a _, lifetime b _ => a == b
  | literal a _, literal b _ => a == b
  | symbol a _, symbol b _ => a == b
  | _, _ => false

namespace Tree

/-- The tokens of a tree, from left to right. -/
def toTokens : Tree → List TokenTree
  | leaf l => l.toTokens
  | tokens ts => ts
  | arguments written _ => written
  | group d o content c => [.group d o (toTokensAll content) c]
  | node _ children => toTokensAll children
where
  toTokensAll : List Tree → List TokenTree
    | [] => []
    | t :: ts => t.toTokens ++ toTokensAll ts

/-- Equality of trees, places left aside. -/
def same : Tree → Tree → Bool
  | leaf a, leaf b => a.same b
  | tokens as, tokens bs => TokenTree.same.sameAll as bs
  | arguments a as, arguments b bs => TokenTree.same.sameAll a b && sameAll as bs
  | group d _ as _, group e _ bs _ => d == e && sameAll as bs
  | node k as, node l bs => k == l && sameAll as bs
  | _, _ => false
where
  sameAll : List Tree → List Tree → Bool
    | [], [] => true
    | a :: as, b :: bs => a.same b && sameAll as bs
    | _, _ => false

/-- A bound on the depth of a tree: the number of its nodes. -/
def size : Tree → Nat
  | leaf _ | tokens _ => 1
  | arguments _ read => sizeAll read + 1
  | group _ _ content _ => sizeAll content + 1
  | node _ children => sizeAll children + 1
where
  sizeAll : List Tree → Nat
    | [] => 0
    | t :: ts => t.size + sizeAll ts

/-- A part that is left out. -/
def absent : Tree := node .absent []

/-- Elements with their separators. -/
def list (ts : List Tree) : Tree := node .list ts

/-- No attributes. -/
def noAttrs : Tree := node .attrs []

/-- Whether a part is there. -/
def isPresent : Tree → Bool
  | node .absent _ => false
  | _ => true

/-- The kind of a node. -/
def kind? : Tree → Option Kind
  | node k _ => some k
  | _ => none

/-- The children of a node. -/
def children : Tree → List Tree
  | node _ cs => cs
  | _ => []

/-- The text of a leaf, and nothing for other trees. -/
def text : Tree → String
  | leaf l => l.text
  | _ => ""

/-- Whether the tree is the given operator. -/
def isSymbol (s : String) : Tree → Bool
  | leaf (.symbol t _) => t == s
  | _ => false

/-- The elements of a list, which stand at every second place. -/
def elements : Tree → List Tree
  | node .list ts => everySecond ts
  | _ => []
where
  everySecond : List Tree → List Tree
    | [] => []
    | [t] => [t]
    | t :: _ :: rest => t :: everySecond rest

/-- Whether a list ends with a separator. -/
def endsSeparated : Tree → Bool
  | node .list ts => 0 < ts.length && ts.length % 2 == 0
  | _ => false

end Tree

/-- The attributes of a node of attributes. -/
def Tree.attrList : Tree → List Tree
  | .node .attrs as => as
  | _ => []

end CallProbe.Source

namespace CallProbe

-- Mathlib has a `Tree` at the root: without this, each `Tree` below would be tried as both where `Source` is open.
export Source (Tree)

end CallProbe
