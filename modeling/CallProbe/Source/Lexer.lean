import CallProbe.Source.Token
import CallProbe.Text.Quoted

/-! # Reading tokens

From the characters of a text to its token trees. A scanner takes the characters that are left and gives
back the ones that it takes and the rest; the reader puts the tokens of matching brackets together.
Comments and blanks separate tokens and leave nothing behind, except that a doc comment stands for the
attribute `#[doc = "…"]`. -/

namespace CallProbe.Source.Lexer

open Text

/-- What a scanner found: the characters it took, and those after them. -/
abbrev Taken := Option (List Char × List Char)

/-- Puts a character in front of what was taken. -/
def push (c : Char) : Taken → Taken := Option.map fun (taken, rest) => (c :: taken, rest)

/-- Puts characters in front of what was taken. -/
def pushAll (cs : List Char) : Taken → Taken := Option.map fun (taken, rest) => (cs ++ taken, rest)

/-- The place after the given characters. -/
def advance (p : Pos) : List Char → Pos
  | [] => p
  | c :: cs => advance (if c = '\n' then ⟨p.line + 1, 0⟩ else ⟨p.line, p.column + 1⟩) cs

/-! ### Names -/

/-- A name: an opening character and all that continue it. -/
def name : List Char → Taken
  | [] => none
  | c :: cs =>
    if isIdentStart c then some (c :: cs.takeWhile isIdentContinue, cs.dropWhile isIdentContinue) else none

/-- Names that have no raw form. -/
def neverRaw (cs : List Char) : Bool :=
  ["_", "super", "self", "Self", "crate"].contains (String.ofList cs)

/-- A name, or one written raw. -/
def anyName : List Char → Taken
  | 'r' :: '#' :: cs =>
    match name cs with
    | some (n, rest) => if neverRaw n then none else some ('r' :: '#' :: n, rest)
    | none => none
  | cs => name cs

/-- The openings of literals that a name cannot have. -/
def literalOpenings : List (List Char) :=
  ["r\"", "r#\"", "r##", "b\"", "b'", "br\"", "br#", "c\"", "cr\"", "cr#"].map String.toList

/-- An identifier or keyword. -/
def identifier (cs : List Char) : Taken :=
  if literalOpenings.any fun o => (after? o cs).isSome then none else anyName cs

/-- Takes the suffix of a literal, if it has one. -/
def withSuffix : Taken → Taken
  | none => none
  | some (taken, rest) =>
    match name rest with
    | some (suffix, rest') => some (taken ++ suffix, rest')
    | none => some (taken, rest)

/-! ### Strings and characters -/

/-- What a literal between quotes holds: characters, bytes, or characters other than zero. -/
inductive Content where
  | chars
  | bytes
  | nonzero
deriving DecidableEq

/-- Where a scan of quoted characters stands. -/
inductive Mode where
  | plain
  | carriageReturn
  | escape
  | hexFirst
  | hexSecond (high : Nat)
  | codeOpen
  | codeDigits (value count : Nat)
  | lineEnd
  | lineEndReturn
  | closed
deriving DecidableEq

/-- The value of a hexadecimal digit. -/
def hexValue? (c : Char) : Option Nat :=
  if '0' ≤ c ∧ c ≤ '9' then some (c.toNat - '0'.toNat)
  else if 'a' ≤ c ∧ c ≤ 'f' then some (c.toNat - 'a'.toNat + 10)
  else if 'A' ≤ c ∧ c ≤ 'F' then some (c.toNat - 'A'.toNat + 10)
  else none

/-- Whether the number is a character. -/
def isScalar (n : Nat) : Bool := n < 0xD800 || (0xDFFF < n && n < 0x110000)

/-- The next mode from ordinary text. -/
def plainStep (content : Content) (c : Char) : Option Mode :=
  if c = '"' then some .closed
  else if c = '\r' then some .carriageReturn
  else if c = '\\' then some .escape
  else match content with
    | .chars => some .plain
    | .bytes => if c.toNat < 128 then some .plain else none
    | .nonzero => if c = '\x00' then none else some .plain

/-- The next mode after a backslash. -/
def escapeStep (content : Content) (c : Char) : Option Mode :=
  if c = 'x' then some .hexFirst
  else if ['n', 'r', 't', '\\', '\'', '"'].contains c then some .plain
  else if c = '0' then if content = .nonzero then none else some .plain
  else if c = 'u' then if content = .bytes then none else some .codeOpen
  else if c = '\n' then some .lineEnd
  else if c = '\r' then some .lineEndReturn
  else none

/-- The next mode. A backslash at the end of a line skips to the next character that is not a blank. -/
def step (content : Content) : Mode → Char → Option Mode
  | .plain, c => plainStep content c
  | .carriageReturn, c => if c = '\n' then some .plain else none
  | .escape, c => escapeStep content c
  | .hexFirst, c =>
    match hexValue? c with
    | some v => if content = .chars ∧ 8 ≤ v then none else some (.hexSecond v)
    | none => none
  | .hexSecond high, c =>
    match hexValue? c with
    | some v => if content = .nonzero ∧ high = 0 ∧ v = 0 then none else some .plain
    | none => none
  | .codeOpen, c => if c = '\x7b' then some (.codeDigits 0 0) else none
  | .codeDigits value count, c =>
    if c = '_' ∧ 0 < count then some (.codeDigits value count)
    else if c = '\x7d' ∧ 0 < count then
      if isScalar value ∧ ¬(content = .nonzero ∧ value = 0) then some .plain else none
    else match hexValue? c with
      | some v => if count = 6 then none else some (.codeDigits (value * 16 + v) (count + 1))
      | none => none
  | .lineEnd, c =>
    if c = ' ' ∨ c = '\t' ∨ c = '\n' then some .lineEnd
    else if c = '\r' then some .lineEndReturn
    else plainStep content c
  | .lineEndReturn, c => if c = '\n' then some .lineEnd else none
  | .closed, _ => none

/-- The rest of a quoted string, with its closing quote. -/
def quotedRest (content : Content) : Mode → List Char → Taken
  | _, [] => none
  | mode, c :: cs =>
    match step content mode c with
    | none => none
    | some .closed => some ([c], cs)
    | some mode' => push c (quotedRest content mode' cs)

/-- Whether a raw string may hold the character. -/
def rawAllows (content : Content) (c : Char) : Bool :=
  match content with
  | .chars => true
  | .bytes => c.toNat < 128
  | .nonzero => c != '\x00'

/-- The rest of a raw string, closed by a quote and the given number signs. -/
def rawRest (content : Content) (marks : List Char) : List Char → Taken
  | [] => none
  | '"' :: cs =>
    match after? marks cs with
    | some rest => some ('"' :: marks, rest)
    | none => push '"' (rawRest content marks cs)
  | '\r' :: '\n' :: cs => pushAll ['\r', '\n'] (rawRest content marks cs)
  | c :: cs => if c = '\r' ∨ !rawAllows content c then none else push c (rawRest content marks cs)

/-- A raw string after its letters. -/
def rawString (content : Content) (cs : List Char) : Taken :=
  let marks := cs.takeWhile (· = '#')
  match cs.dropWhile (· = '#') with
  | '"' :: rest => if marks.length ≤ 255 then pushAll (marks ++ ['"']) (rawRest content marks rest) else none
  | _ => none

/-- A string literal of any kind. -/
def string : List Char → Taken
  | '"' :: cs => withSuffix (push '"' (quotedRest .chars .plain cs))
  | 'b' :: '"' :: cs => withSuffix (pushAll ['b', '"'] (quotedRest .bytes .plain cs))
  | 'c' :: '"' :: cs => withSuffix (pushAll ['c', '"'] (quotedRest .nonzero .plain cs))
  | 'b' :: 'r' :: cs => withSuffix (pushAll ['b', 'r'] (rawString .bytes cs))
  | 'c' :: 'r' :: cs => withSuffix (pushAll ['c', 'r'] (rawString .nonzero cs))
  | 'r' :: cs => withSuffix (push 'r' (rawString .chars cs))
  | _ => none

/-- The escape of a character literal, after its backslash. -/
def charEscape (content : Content) (mode : Mode) : List Char → Taken
  | [] => none
  | c :: cs =>
    match step content mode c with
    | none | some .closed | some .lineEnd | some .lineEndReturn => none
    | some .plain => some ([c], cs)
    | some mode' => push c (charEscape content mode' cs)

/-- A character literal after its opening apostrophe. -/
def charRest (content : Content) (cs : List Char) : Taken :=
  let body : Taken :=
    match cs with
    | '\\' :: rest => push '\\' (charEscape content .escape rest)
    | c :: rest => if content = .bytes ∧ 128 ≤ c.toNat then none else some ([c], rest)
    | [] => none
  match body with
  | some (taken, '\'' :: rest) => some (taken ++ ['\''], rest)
  | _ => none

/-- A character or byte literal. -/
def character : List Char → Taken
  | 'b' :: '\'' :: cs => withSuffix (pushAll ['b', '\''] (charRest .bytes cs))
  | '\'' :: cs => withSuffix (push '\'' (charRest .chars cs))
  | _ => none

/-! ### Numbers -/

/-- A decimal digit or an underscore. -/
def isDigitOrGap (c : Char) : Bool := c.isDigit || c == '_'

/-- The exponent after its letter: at most one sign, in front of the first digit. -/
def exponent (signed valued : Bool) : List Char → Option (Bool × List Char × List Char)
  | [] => some (valued, [], [])
  | c :: cs =>
    let next (s v : Bool) := (exponent s v cs).map fun (ok, taken, rest) => (ok, c :: taken, rest)
    if c = '+' ∨ c = '-' then
      if valued then some (valued, [], c :: cs) else if signed then none else next true valued
    else if c.isDigit then next signed true
    else if c = '_' then next signed valued
    else some (valued, [], c :: cs)

/-- Takes an exponent at its letter. Without digits it is left alone, which needs a fraction before it. -/
def withExponent (fraction : Bool) (taken : List Char) : List Char → Taken
  | e :: cs =>
    match exponent false false cs with
    | some (true, digits, rest) => some (taken ++ e :: digits, rest)
    | _ => if fraction then some (taken, e :: cs) else none
  | [] => none

/-- The digits of a number with a point or an exponent. -/
def floatDigits : List Char → Taken
  | [] => none
  | c :: cs =>
    if !c.isDigit then none
    else
      let whole := c :: cs.takeWhile isDigitOrGap
      match cs.dropWhile isDigitOrGap with
      | '.' :: rest =>
        if rest.head?.any fun d => d = '.' || isIdentStart d then none
        else
          let taken := whole ++ '.' :: rest.takeWhile isDigitOrGap
          match rest.dropWhile isDigitOrGap with
          | 'e' :: r => withExponent true taken ('e' :: r)
          | 'E' :: r => withExponent true taken ('E' :: r)
          | r => some (taken, r)
      | 'e' :: r => withExponent false whole ('e' :: r)
      | 'E' :: r => withExponent false whole ('E' :: r)
      | _ => none

/-- Digits of the given base, with gaps. A decimal digit outside the base is an error. -/
def digitsOf (base : Nat) : List Char → Option (Bool × List Char × List Char)
  | [] => some (false, [], [])
  | c :: cs =>
    let next (digit : Bool) :=
      (digitsOf base cs).map fun (found, taken, rest) => (digit || found, c :: taken, rest)
    if c = '_' then next false
    else match hexValue? c with
      | some v => if v < base then next true else if c.isDigit then none else some (false, [], c :: cs)
      | none => some (false, [], c :: cs)

/-- The digits of a whole number. -/
def intDigits (cs : List Char) : Taken :=
  let based (base : Nat) (opening body : List Char) : Taken :=
    match digitsOf base body with
    | some (true, taken, rest) => some (opening ++ taken, rest)
    | _ => none
  match cs with
  | '0' :: 'x' :: body => based 16 ['0', 'x'] body
  | '0' :: 'o' :: body => based 8 ['0', 'o'] body
  | '0' :: 'b' :: body => based 2 ['0', 'b'] body
  | '_' :: _ => none
  | body => based 10 [] body

/-- A number takes its suffix and must end where no name goes on. -/
def endNumber (taken : Taken) : Taken :=
  match withSuffix taken with
  | some (t, rest) => if rest.head?.any isIdentContinue then none else some (t, rest)
  | none => none

/-- A numeric literal. -/
def number (cs : List Char) : Taken :=
  (endNumber (floatDigits cs)).or (endNumber (intDigits cs))

/-- A literal of any kind. -/
def literal (cs : List Char) : Taken :=
  ((string cs).or (character cs)).or (number cs)

/-! ### Punctuation and comments -/

/-- The characters that are punctuation. -/
def isPunct (c : Char) : Bool := "~!@#$%^&*-=+|;:,<.>/?'".toList.contains c

/-- Whether a comment starts here. -/
def opensComment : List Char → Bool
  | '/' :: '/' :: _ => true
  | '/' :: '*' :: _ => true
  | _ => false

/-- Whether punctuation starts here. -/
def opensPunct (cs : List Char) : Bool :=
  !opensComment cs && cs.head?.any isPunct

/-- A lifetime: an apostrophe and a name, not closed like a character. -/
def lifetime : List Char → Taken
  | '\'' :: cs =>
    match anyName cs with
    | some (n, rest) =>
      let raw := (after? ['r', '#'] cs).isSome
      if rest.head? = some '\'' ∨ (rest.head? = some '#' ∧ !raw) then none else some ('\'' :: n, rest)
    | none => none
  | _ => none

/-- The characters up to the end of the line; a return before the line feed is taken and not kept. -/
def lineRest : List Char → List Char × List Char × List Char
  | [] => ([], [], [])
  | '\n' :: cs => ([], [], '\n' :: cs)
  | '\r' :: '\n' :: cs => ([], ['\r'], '\n' :: cs)
  | c :: cs => let (text, extra, rest) := lineRest cs; (c :: text, extra, rest)

/-- The rest of a comment between stars, which nests, at the given depth. -/
def blockRest : Nat → List Char → Taken
  | depth, '/' :: '*' :: cs => pushAll ['/', '*'] (blockRest (depth + 1) cs)
  | depth, '*' :: '/' :: cs =>
    if depth ≤ 1 then some (['*', '/'], cs) else pushAll ['*', '/'] (blockRest (depth - 1) cs)
  | depth, c :: cs => push c (blockRest depth cs)
  | _, [] => none

/-- A comment: whether it is a doc comment (and then an inner one) with its text, what it takes, the rest. -/
structure Comment where
  doc : Option (Bool × List Char)
  taken : List Char
  rest : List Char

/-- Whether every return in the text stands before a line feed. -/
def returnsPaired : List Char → Bool
  | '\r' :: '\n' :: cs => returnsPaired cs
  | '\r' :: _ => false
  | _ :: cs => returnsPaired cs
  | [] => true

/-- A comment to the end of the line. -/
def lineComment (cs : List Char) : Option Comment :=
  let doc? (opening body : List Char) (inner : Bool) : Option Comment :=
    let (text, extra, rest) := lineRest body
    some ⟨some (inner, text), opening ++ text ++ extra, rest⟩
  match cs with
  | '/' :: '/' :: '!' :: body => doc? ['/', '/', '!'] body true
  | '/' :: '/' :: '/' :: '/' :: body =>
    let (text, extra, rest) := lineRest body
    some ⟨none, "////".toList ++ text ++ extra, rest⟩
  | '/' :: '/' :: '/' :: body => doc? ['/', '/', '/'] body false
  | '/' :: '/' :: body =>
    let (text, extra, rest) := lineRest body
    some ⟨none, '/' :: '/' :: text ++ extra, rest⟩
  | _ => none

/-- A comment between stars. -/
def blockComment (cs : List Char) : Option Comment :=
  match cs with
  | '/' :: '*' :: '*' :: '/' :: rest => some ⟨none, "/**/".toList, rest⟩
  | '/' :: '*' :: body =>
    match blockRest 1 body with
    | none => none
    | some (taken, rest) =>
      let whole := '/' :: '*' :: taken
      let text := (whole.drop 3).take (whole.length - 5)
      match body with
      | '!' :: _ => some ⟨some (true, text), whole, rest⟩
      | '*' :: '*' :: _ => some ⟨none, whole, rest⟩
      | '*' :: _ => some ⟨some (false, text), whole, rest⟩
      | _ => some ⟨none, whole, rest⟩
  | _ => none

/-- The attribute that a doc comment stands for; all its tokens are at the comment's place. -/
def docTokens (pos : Pos) (inner : Bool) (text : List Char) : List TokenTree :=
  let body := [.ident "doc" pos, .punct '=' false pos, .literal (quote (String.ofList text)) pos]
  .punct '#' false pos :: (if inner then [.punct '!' false pos] else []) ++ [.group .bracket pos body pos]

/-- Blanks between tokens: white space and the two direction marks. -/
def isSpace (c : Char) : Bool := isBlank c || c.toNat == 0x200E || c.toNat == 0x200F

/-! ### Token trees -/

/-- A bracket that is still open: its kind and place, and the tokens before it, last first. -/
structure Frame where
  delim : Delimiter
  pos : Pos
  before : List TokenTree

/-- The bracket that a character opens. -/
def opens? (c : Char) : Option Delimiter :=
  if c = '(' then some .paren else if c = '[' then some .bracket else if c = '\x7b' then some .brace else none

/-- The bracket that a character closes. -/
def closes? (c : Char) : Option Delimiter :=
  if c = ')' then some .paren else if c = ']' then some .bracket else if c = '\x7d' then some .brace else none

/-- One token that is not a bracket. -/
def leaf (pos : Pos) (cs : List Char) : Option (TokenTree × List Char × List Char) :=
  match literal cs with
  | some (t, rest) => some (.literal (String.ofList t) pos, t, rest)
  | none =>
    match lifetime cs with
    | some (t, rest) => some (.lifetime (String.ofList t) pos, t, rest)
    | none =>
      match cs with
      | [] => none
      | c :: rest =>
        if opensPunct cs && c != '\'' then some (.punct c (opensPunct rest) pos, [c], rest)
        else match identifier cs with
          | some (t, rest') => some (.ident (String.ofList t) pos, t, rest')
          | none => none

/-- The text that stands for a literal that could not be read. It is one token. -/
def placeholder : List Char := "(/*ERROR*/)".toList

/-- Reads tokens with the brackets `frames` open and the tokens `read` since the last of them, last
    first. Every turn takes a character, so as many turns as characters are enough. -/
def readFrom : Nat → List Frame → List TokenTree → Pos → List Char → Option (List TokenTree)
  | 0, _, _, _, _ => none
  | _ + 1, [], read, _, [] => some read.reverse
  | _ + 1, _ :: _, _, _, [] => none
  | fuel + 1, frames, read, pos, c :: cs =>
    if isSpace c then readFrom fuel frames read (advance pos [c]) cs
    else match (lineComment (c :: cs)).or (blockComment (c :: cs)) with
      | some ⟨none, taken, rest⟩ => readFrom fuel frames read (advance pos taken) rest
      | some ⟨some (inner, text), taken, rest⟩ =>
        if returnsPaired text then
          readFrom fuel frames ((docTokens pos inner text).reverse ++ read) (advance pos taken) rest
        else none
      | none =>
        match after? placeholder (c :: cs) with
        | some rest =>
          readFrom fuel frames (.literal (String.ofList placeholder) pos :: read) (advance pos placeholder) rest
        | none =>
          match opens? c with
          | some d => readFrom fuel (⟨d, pos, read⟩ :: frames) [] (advance pos [c]) cs
          | none =>
            match closes? c with
            | some d =>
              match frames with
              | f :: outer =>
                if f.delim = d then
                  readFrom fuel outer (.group d f.pos read.reverse pos :: f.before) (advance pos [c]) cs
                else none
              | [] => none
            | none =>
              match leaf pos (c :: cs) with
              | some (t, taken, rest) => readFrom fuel frames (t :: read) (advance pos taken) rest
              | none => none

end Lexer

/-- The tokens of a text, or nothing if it has none: an unmatched bracket, an unfinished literal. A byte
    order mark in front is skipped, and counts as a column. -/
def tokenize (s : String) : Option (List TokenTree) :=
  let (pos, cs) : Pos × List Char := match s.toList with
    | c :: cs => if c.toNat = 0xFEFF then (⟨1, 1⟩, cs) else (⟨1, 0⟩, c :: cs)
    | [] => (⟨1, 0⟩, [])
  Lexer.readFrom (cs.length + 1) [] [] pos cs

end CallProbe.Source
