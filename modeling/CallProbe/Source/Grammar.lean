import CallProbe.Source.Parse.Item

/-! # The grammar

Ties the rules together. Rules reach each other through `run`, which counts how deep they are nested; a
rule that reaches another takes a token every few steps, so a bound proportional to the number of tokens
is never met. `reach` takes the bound from the tokens that are left, so what a goal reads depends on these
alone. -/

namespace CallProbe.Source.Grammar

open Parse

/-- The rule for a goal. -/
def rule (reach : Reach) : Goal → Parser Tree
  | .expr structs => expr reach structs
  | .unary structs => unary reach structs
  | .climb left structs base => climb reach left structs base
  | .earlyExpr => earlyExpr reach
  | .operand structs after => operand reach structs after
  | .trailers base => trailers reach base
  | .block inner => block reach inner
  | .stmt => stmt reach
  | .pattern => pattern reach
  | .type plus => type reach plus
  | .typePath => path reach false
  | .genericParam => genericParam reach
  | .item => item reach
  | .useTree root => useTree reach root

/-- Reaches goals with rules nested at most as deep as the given number. -/
def run : Nat → Reach
  | 0, _ => refuse
  | n + 1, goal => rule (run n) goal

/-- A bound on the nesting of rules over a sequence of tokens. -/
def depth (ts : List TokenTree) : Nat := 12 * tokenCount ts + 60

/-- Reaches goals, with rules nested as deep as the tokens that are left can nest them. -/
def reach : Reach := fun goal ts => run (depth ts) goal ts

/-- Reads all of a sequence of tokens. -/
def parseWith {α : Type} (p : Reach → Parser α) (ts : List TokenTree) : Except Fault α :=
  match p reach ts with
  | .ok (a, []) => .ok a
  | .ok (_, _ :: _) => .error .unexpected
  | .error e => .error e

/-- Reads an expression. -/
def parseExpr (ts : List TokenTree) : Except Fault Tree := parseWith (fun reach => reach (.expr true)) ts

/-- Reads a block. -/
def parseBlock (ts : List TokenTree) : Except Fault Tree := parseWith (fun reach => reach (.block false)) ts

/-- Reads a path as it stands in types. -/
def parsePath (ts : List TokenTree) : Except Fault Tree := parseWith (path · false) ts

/-- Reads the attributes in front of something. -/
def parseOuterAttrs (ts : List TokenTree) : Except Fault (List Tree) :=
  (parseWith outerAttrs ts).map Tree.attrList

/-- Reads a file. -/
def parseFile (ts : List TokenTree) : Except Fault Tree :=
  parseWith (fun reach => do
    let attrs ← innerAttrs reach
    return .node .file [attrs, .node .items (← repeatWhile (!atEnd ·) (item reach))]) ts

/-- Reads an expression from text. -/
def exprOfText (text : String) : Option Tree := do (parseExpr (← tokenize text)).toOption

end CallProbe.Source.Grammar
