import CallProbe.Layout.Doc
import CallProbe.Source.Token

/-! # Layout of tokens

Arguments of attributes and of macros have no grammar, so their spacing is decided from one token to the
next. -/

namespace CallProbe.Layout

open Source

/-! ### Arguments of attributes -/

/-- What the last token of an attribute was. -/
inductive AttrSpacing where
  | wordLike
  | mark
  | finalComma
deriving DecidableEq

/-- The space between two words of an attribute; outside of brackets no line may end there. -/
def attrSpace (inBrackets : Bool) : Doc := if inBrackets then space else word " "

mutual

/-- The tokens inside an attribute, and the kind of the last one. -/
def attrTokens (inBrackets : Bool) : AttrSpacing → List TokenTree → Doc × AttrSpacing
  | s, [] => ([], s)
  | s, t :: ts =>
    let (first, kind) := attrToken inBrackets s ts.isEmpty t
    let (rest, last) := attrTokens inBrackets kind ts
    (first ++ rest, last)

/-- One token inside an attribute, given the kind of the one before it, and its own kind. -/
def attrToken (inBrackets : Bool) (s : AttrSpacing) (isLast : Bool) : TokenTree → Doc × AttrSpacing
  | .ident t _ | .literal t _ => ((if s = .wordLike then attrSpace inBrackets else nothing) ++ word t, .wordLike)
  | .lifetime t _ => (word t, .wordLike)
  | .punct c _ _ =>
    let gap := if s = .wordLike ∧ c = '=' then word " " else nothing
    if c = ',' ∧ isLast then (gap ++ comma true, .finalComma)
    else
      let after := if c = '=' then word " " else if c = ',' then attrSpace inBrackets else nothing
      (gap ++ word c.toString ++ after, .mark)
  | .group delim _ content _ =>
    let (inner, last) := attrTokens true .mark content
    match delim with
    | .paren =>
      let close := if last = .finalComma then nothing else softBreak
      (word "(" ++ uniformBox tab (softBreak ++ inner ++ close ++ outdent) ++ word ")", .mark)
    | _ => (word delim.opening ++ inner ++ word delim.closing, .mark)

end

/-! ### Arguments of macros -/

/-- What was last seen in the arguments of a macro. -/
inductive MacroSpacing where
  | start
  | dollar
  | dollarName
  | dollarCrate
  | dollarNameColon
  | dollarParen
  | dollarParenSep
  | pound
  | poundBang
  | dot
  | colon
  | twoColons
  | name
  | nameBang
  | delimited
  | other
deriving DecidableEq

/-- Words that do not count as names in the arguments of a macro. -/
def reservedWords : List String :=
  ["as", "async", "await", "box", "break", "const", "continue", "crate", "dyn", "else", "enum", "extern",
    "fn", "for", "if", "impl", "in", "let", "loop", "macro", "match", "mod", "move", "mut", "pub", "ref",
    "return", "static", "struct", "trait", "type", "unsafe", "use", "where", "while", "yield"]

/-- Whether a space stands before a word, and what the word counts as. -/
def beforeWord (matcher : Bool) (s : MacroSpacing) (text : String) : Bool × MacroSpacing :=
  match s with
  | .dollarNameColon => (false, .other)
  | .dollarParen => (false, .dollarParenSep)
  | _ =>
    if s = .dollar ∧ matcher then (false, .dollarName)
    else if s = .dollar then (false, if text = "crate" then .dollarCrate else .other)
    else if reservedWords.contains text then (true, .other) else (s != .dot && s != .twoColons, .name)

/-- Whether a space stands before a literal, and what the literal counts as. -/
def beforeLiteral (s : MacroSpacing) (text : String) : Bool × MacroSpacing :=
  match s with
  | .dollarParen => (false, .dollarParenSep)
  | _ => (s != .dot, if text.toList.getLast? == some '.' then .other else .name)

/-- Whether a space stands before a bracketed part, and what that counts as. -/
def beforeGroup (s : MacroSpacing) (d : Delimiter) : Bool × MacroSpacing :=
  match d with
  | .brace => (true, .other)
  | .paren =>
    if s = .dollar then (false, .dollarParen)
    else if s = .name then (false, .delimited)
    else if s = .nameBang then (false, .other)
    else (true, .delimited)
  | .bracket =>
    if s = .pound ∨ s = .poundBang then (false, .other)
    else if s = .name then (false, .delimited)
    else if s = .nameBang then (false, .other)
    else (true, .delimited)

/-- Whether a space stands before a punctuation character, and what the character counts as. -/
def beforePunct (matcher : Bool) (s : MacroSpacing) (c : Char) (joint : Bool) : Bool × MacroSpacing :=
  if s = .dollarName ∧ c = ':' ∧ !joint then (false, .dollarNameColon)
  else if s = .dollarParen then
    if (c = '+' ∨ c = '*' ∨ c = '?') ∧ !joint then (false, .other)
    else (false, if joint then .dollarParen else .dollarParenSep)
  else if s = .dollarParenSep ∧ (c = '+' ∨ c = '*') then (false, .other)
  else if s = .pound ∧ c = '!' then (false, .poundBang)
  else if s = .name ∧ c = '!' ∧ !joint then (false, .nameBang)
  else if s = .colon ∧ c = ':' then (false, .twoColons)
  else if c = ',' ∨ c = ';' then (false, .other)
  else if c = '.' ∧ !matcher then (s != .name && s != .delimited, .dot)
  else if c = ':' ∧ joint then (s != .name && s != .dollarCrate, .colon)
  else if c = '$' then (true, .dollar)
  else if c = '#' then (true, .pound)
  else (true, .other)

/-- The gap before a token: none after a joined character. -/
def macroGap (joined needed : Bool) (isDot : Bool) : Doc :=
  if joined then nothing else if needed then space else if isDot then softBreak else nothing

/-- The tokens inside a macro call; `matcher` says whether they are the left side of a macro's rule, and
    `joined` whether the last token clings to the next. -/
def macroTokens (matcher : Bool) : MacroSpacing → Bool → List TokenTree → Doc
  | _, _, [] => []
  | s, joined, .ident t _ :: ts =>
    let (needed, s') := beforeWord matcher s t
    macroGap joined needed false ++ word t ++ macroTokens matcher s' false ts
  | s, joined, .lifetime t _ :: ts =>
    let (needed, s') := beforePunct matcher s '\'' true
    let (_, s'') := beforeWord matcher s' (String.ofList (t.toList.drop 1))
    macroGap joined needed false ++ word t ++ macroTokens matcher s'' false ts
  | s, joined, .literal t _ :: ts =>
    let (needed, s') := beforeLiteral s t
    macroGap joined needed false ++ word t ++ macroTokens matcher s' false ts
  | s, joined, .punct c joint _ :: ts =>
    let (needed, s') := beforePunct matcher s c joint
    macroGap joined needed (c == '.') ++ word c.toString ++ macroTokens matcher s' (joint || c == '$') ts
  | s, joined, .group d _ content _ :: ts =>
    let (needed, s') := beforeGroup s d
    let inside := macroTokens matcher .start true content
    let pad := if d = .brace then space else nothing
    let body := if content.isEmpty then nothing else pad ++ inside ++ pad
    macroGap joined needed false ++ word d.opening ++ body ++ word d.closing ++ macroTokens matcher s' false ts

/-- The arguments of a macro in their brackets. -/
def macroBody (d : Delimiter) (content : List TokenTree) : Doc :=
  let gap := if d = .brace then lineBreak else softBreak
  let opening := if d = .brace then " \x7b" else d.opening
  let inside := if content.isEmpty then nothing
    else uniformBox tab (gap ++ filledBox 0 (macroTokens false .start true content) ++ gap ++ outdent)
  word opening ++ inside ++ word d.closing

/-! ### Rules of macros -/

/-- What is expected next in the rules of a macro. -/
inductive RulePart where
  | start
  | matcher
  | equal
  | greater
  | expander
deriving DecidableEq

/-- The left side of a rule. -/
def ruleMatcher (d : Delimiter) (content : List TokenTree) : Doc :=
  let inside := if content.isEmpty then nothing
    else uniformBox tab (softBreak ++ filledBox 0 (macroTokens true .start true content) ++ softBreak ++ outdent)
  word d.opening ++ inside ++ word d.closing

/-- The right side of a rule. -/
def ruleExpander (content : List TokenTree) : Doc :=
  let inside := if content.isEmpty then nothing
    else uniformBox tab (lineBreak ++ filledBox 0 (macroTokens false .start true content) ++ lineBreak ++ outdent)
  word " \x7b" ++ noBreak ++ inside ++ word "\x7d"

/-- The rules of a macro, written in the usual way. -/
def ruleTokens : RulePart → List TokenTree → Doc
  | .start, [] => []
  | .expander, [] => word ";" ++ lineBreak
  | _, [] => lineBreak
  | .start, .group d _ content _ :: ts => ruleMatcher d content ++ ruleTokens .matcher ts
  | .matcher, .punct '=' _ _ :: ts => word " =" ++ ruleTokens .equal ts
  | .equal, .punct '>' _ _ :: ts => word ">" ++ ruleTokens .greater ts
  | .greater, .group _ _ content _ :: ts => ruleExpander content ++ ruleTokens .expander ts
  | .expander, .punct ';' _ _ :: ts => word ";" ++ lineBreak ++ ruleTokens .start ts
  | part, _ :: ts => ruleTokens part ts

/-- Whether the rules of a macro are written as `matcher => expander`, with a semicolon between two of them.
    The last one may be unfinished. -/
def rulesAreUsual : List TokenTree → Bool
  | .group _ _ _ _ :: .punct '=' true _ :: .punct '>' false _ :: .group _ _ _ _ :: .punct ';' false _ :: rest =>
    rulesAreUsual rest
  | [.group _ _ _ _, .punct '=' true _, .punct '>' false _, .group _ _ _ _]
  | [.group _ _ _ _, .punct '=' true _, .punct '>' false _]
  | [.group _ _ _ _, .punct '=' true _] | [.group _ _ _ _] | [] => true
  | _ => false

/-- The definition of a macro by rules. Rules that are not written in the usual way have no layout. -/
def macroRules (name : String) (content : List TokenTree) : Doc :=
  if !rulesAreUsual content then [.missing .rules]
  else word ("macro_rules! " ++ name ++ " \x7b") ++
    uniformBox tab (lineBreakIfFollowed ++ ruleTokens .start content ++ outdent) ++ word "\x7d"

end CallProbe.Layout
