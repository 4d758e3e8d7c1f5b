import CallProbe.Call.Target
import CallProbe.Layout.Item
import CallProbe.Source.Make

/-! # Call sites

A call as it stands in the source: its name, where it is, and a short rendering on one line. -/

namespace CallProbe.Call

open Source Text

/-- The length of the longest snippet. -/
def snippetLimit : Nat := 80

/-- The part of a rendered constant that is its value, if the text has that form. -/
def constantValue? (rendered : String) : Option (List Char) := do
  let rest ← after? "const _: () =".toList (trimBlanks rendered.toList)
  if rest.getLast? = some ';' then some rest.dropLast else none

/-- A text on one line: single spaces between words, and none inside parentheses or before a dot, where the
    layout may have ended a line. -/
def onOneLine (cs : List Char) : List Char :=
  let line := (joinWith " " ((words cs).map String.ofList)).toList
  replacePair ' ' '.' '.' (replacePair ' ' ')' ')' (replacePair '(' ' ' '(' line))

/-- A text of at most `snippetLimit` characters; a longer one ends in dots. -/
def shorten (cs : List Char) : List Char :=
  if snippetLimit < cs.length then cs.take (snippetLimit - 3) ++ ['.', '.', '.'] else cs

/-- The snippet for the text of a constant whose value is an expression. -/
def snippetOf (rendered : String) : String :=
  String.ofList (shorten (onOneLine ((constantValue? rendered).getD rendered.toList)))

/-- The constant whose value is an expression. -/
def constantOf (e : Tree) : Tree :=
  .node .constItem [.noAttrs, .absent, Make.word "const", Make.word "_", Make.symbol ":",
    .node .tupleType [Make.parens [.list []]], Make.symbol "=", e, Make.symbol ";"]

/-- An expression on one line. It is laid out as its text is read. -/
def snippet (e : Tree) : Except Layout.Unprintable String :=
  (Layout.textOfItems .noAttrs [constantOf e.grouped]).map snippetOf

/-- A call in the source. -/
structure Site where
  target : Target
  /-- The function around the call. -/
  function : String
  /-- Where the call starts and on which line it ends, all counted from one; zero if unknown. -/
  line : Nat
  endLine : Nat
  column : Nat
  snippet : String
  /-- The place of the first token. -/
  start : Pos
  /-- Whether the result is awaited. -/
  awaited : Bool
  /-- The part of the call that a snippet cannot show, if there is one. -/
  hidden : Option Layout.Unprintable
deriving Inhabited

/-- The name of the call. -/
def Site.name (s : Site) : String := s.target.text

/-- The target of a call or of an awaited call, and whether it is awaited. -/
def callOf? : Tree → Option (Target × Bool)
  | .node .awaitExpr [_, base, _, _] => (Target.ofCall? base).map (·, true)
  | e => (Target.ofCall? e).map (·, false)

/-- The site of an expression that is a call or an awaited call. -/
def Site.of? (function : String) (e : Tree) : Option Site :=
  (callOf? e).map fun (target, awaited) =>
    let tokens := e.toTokens
    let start := startOf tokens
    let (snippet, hidden) := match Call.snippet e with
      | .ok s => (s, none)
      | .error part => ("", some part)
    { target, function, awaited, start
      line := start.line
      endLine := (finishOf tokens).line
      column := start.column + 1
      snippet
      hidden }

/-- A call site as a static of the running program: a block whose value is a reference to it. Where the
    location is unknown the compiler fills it in. -/
def Site.toStatic (s : Site) : Tree :=
  let number (n : Nat) : Tree := Make.literal (toString n ++ "u32")
  let location : List Tree :=
    if 0 < s.line then [number s.line, number (max s.endLine s.line), number s.column]
    else [Make.rootMacro ["core", "line"], Make.rootMacro ["core", "line"], Make.rootMacro ["core", "column"]]
  let args := [Make.string s.name, Make.string s.function, Make.rootMacro ["core", "file"]] ++ location ++
    [Make.string s.snippet]
  let value := Make.call (Make.rootPath ["shallow_runtime", "CallSite", "new"]) (Make.terminated args)
  Make.blockExpr [Make.itemStmt (Make.staticItem "__SHALLOW_SITE" (Make.rootType ["shallow_runtime", "CallSite"]) value),
    Make.lastExpr (Make.reference "__SHALLOW_SITE")]

end CallProbe.Call
