import CallProbe.Probe.Instrument

/-! # The functions of a file

The functions that can be probed, under the names that a selection knows them by. -/

namespace CallProbe.Project

open Source Probe

/-- A function found in a file. -/
structure Found where
  name : String
  marked : Bool
deriving DecidableEq, Repr

/-- A function as found in the type or trait `scope`. -/
def Found.of (imports : Imports) (scope : Option String) (f : Function) : Found :=
  ⟨qualified scope f.name, f.attrs.any fun a => (imports.marker? a).isSome⟩

mutual

/-- The functions of a tree. The bodies of functions are not searched. A declaration without a body counts only
    if it is marked, so that the missing body is reported. Attributes come first, also those inside a body, and
    a where clause comes right after the parameters that it limits. -/
def functionsIn (imports : Imports) (scope : Option String) : Tree → List Found
  | .node .fnItem [attrs, vis, sig, body] => [Found.of imports scope (Function.ofParts attrs vis sig body)]
  | .node .methodItem [attrs, vis, _, sig, body] => [Found.of imports scope (Function.ofParts attrs vis sig body)]
  | .node .traitFn [attrs, sig, body] =>
    let f := Function.ofParts attrs .absent sig body
    let found := Found.of imports scope f
    if f.body.isSome || found.marked then [found] else []
  | .node .implItem [attrs, _, _, _, gs, of, self, w, .group _ _ [inner, items] _] =>
    let scope := some (typeName self)
    functionsIn imports scope attrs ++ functionsIn imports scope inner ++ functionsIn imports scope gs ++
      functionsIn imports scope w ++ functionsIn imports scope of ++ functionsIn imports scope self ++
      functionsIn imports scope items
  | .node .traitItem [attrs, _, _, _, _, n, gs, _, bounds, w, .group _ _ [inner, items] _] =>
    let scope := some n.text
    functionsIn imports scope attrs ++ functionsIn imports scope inner ++ functionsIn imports scope gs ++
      functionsIn imports scope w ++ functionsIn imports scope bounds ++ functionsIn imports scope items
  | .node .traitAliasItem [attrs, _, _, _, gs, _, bounds, w, _] =>
    functionsIn imports scope attrs ++ functionsIn imports scope gs ++ functionsIn imports scope w ++
      functionsIn imports scope bounds
  | .node .structItem [attrs, _, _, _, gs, early, fields, late, _] =>
    functionsIn imports scope attrs ++ functionsIn imports scope gs ++ functionsIn imports scope early ++
      functionsIn imports scope late ++ functionsIn imports scope fields
  | .node .assocType [attrs, _, _, _, _, gs, _, t, w, _] =>
    functionsIn imports scope attrs ++ functionsIn imports scope gs ++ functionsIn imports scope w ++
      functionsIn imports scope t
  | .node .traitType [attrs, _, _, gs, _, bounds, dflt, w, _] =>
    functionsIn imports scope attrs ++ functionsIn imports scope gs ++ functionsIn imports scope w ++
      functionsIn imports scope bounds ++ functionsIn imports scope dflt
  | .node .signature [_, _, _, _, _, _, gs, params, output, w] =>
    functionsIn imports scope gs ++ functionsIn imports scope w ++ functionsIn imports scope params ++
      functionsIn imports scope output
  | .node .forExpr [attrs, _, _, pat, _, iterated, .node .block [.group _ _ [inner, stmts] _]] =>
    functionsIn imports scope attrs ++ functionsIn imports scope inner ++ functionsIn imports scope pat ++
      functionsIn imports scope iterated ++ functionsIn imports scope stmts
  | .node .whileExpr [attrs, _, _, cond, .node .block [.group _ _ [inner, stmts] _]] =>
    functionsIn imports scope attrs ++ functionsIn imports scope inner ++ functionsIn imports scope cond ++
      functionsIn imports scope stmts
  | .node .matchExpr [attrs, _, value, .group _ _ [inner, arms] _] =>
    functionsIn imports scope attrs ++ functionsIn imports scope inner ++ functionsIn imports scope value ++
      functionsIn imports scope arms
  | .node _ parts => functionsInAll imports scope parts
  | .group _ _ content _ => functionsInAll imports scope content
  | _ => []

def functionsInAll (imports : Imports) (scope : Option String) : List Tree → List Found
  | [] => []
  | t :: ts => functionsIn imports scope t ++ functionsInAll imports scope ts

end

/-- What is left of a text after blanks and comments other than doc comments. Every turn takes a character,
    so as many turns as characters are enough. -/
def skipBlanks : Nat → List Char → List Char
  | 0, cs => cs
  | _ + 1, [] => []
  | fuel + 1, c :: cs =>
    if Lexer.isSpace c then skipBlanks fuel cs
    else match (Lexer.lineComment (c :: cs)).or (Lexer.blockComment (c :: cs)) with
      | some ⟨none, _, rest⟩ => skipBlanks fuel rest
      | _ => c :: cs

/-- Whether a text starts with a line that names an interpreter. -/
def namesInterpreter : List Char → Bool
  | '#' :: '!' :: rest => (skipBlanks rest.length rest).head? != some '['
  | _ => false

def isMark (c : Char) : Bool := c.toNat == 0xFEFF

/-- A text without a byte order mark. -/
def withoutMark : List Char → List Char
  | c :: cs => if isMark c then cs else c :: cs
  | [] => []

/-- The text of a file without a first line that names an interpreter, and without one of two byte order marks. The tokens of
    a text are read behind a mark, so a single one can stay. -/
def dropInterpreter (source : String) : String :=
  let cs := withoutMark source.toList
  if namesInterpreter cs then String.ofList (cs.dropWhile (· != '\n'))
  else if cs.head?.any isMark then String.ofList cs
  else source

/-- The functions of the text of a file that can be probed. -/
def functionsOf (path source : String) : Except Error (List Found) := do
  let file ← fileOfText path (dropInterpreter source)
  return functionsIn (Imports.ofFile file) none file

end CallProbe.Project
