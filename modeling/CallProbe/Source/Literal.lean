import CallProbe.Source.Lexer

/-! # Literals

What a literal token stands for: its kind, the characters of a string, the digits of a number. -/

namespace CallProbe.Source

open Text

/-- The value of a literal token. Numbers keep their decimal digits, without gaps and suffix; a whole
    number of another base is given in decimal. -/
inductive Literal where
  | str (value : String)
  | byteStr
  | cStr
  | byte
  | char
  | int (digits suffix : String)
  | float (digits suffix : String)
  | bool (value : Bool)
deriving DecidableEq, Repr

namespace Literal

/-- The character that a short escape names. -/
def shortEscape (c : Char) : Char :=
  if c = 'n' then '\n' else if c = 'r' then '\r' else if c = 't' then '\t' else if c = '0' then '\x00' else c

/-- What reading a character adds to the value of a string, with the modes before and after it. -/
def added : Lexer.Mode → Char → Lexer.Mode → List Char
  | .plain, c, .plain | .lineEnd, c, .plain | .carriageReturn, c, .plain => [c]
  | .escape, c, .plain => [shortEscape c]
  | .hexSecond high, c, .plain => [Char.ofNat (high * 16 + (Lexer.hexValue? c).getD 0)]
  | .codeDigits value _, _, .plain => [Char.ofNat value]
  | _, _, _ => []

/-- The characters of a quoted string after its opening quote, escapes resolved. -/
def unescape : Lexer.Mode → List Char → List Char
  | _, [] => []
  | mode, c :: cs =>
    match Lexer.step .chars mode c with
    | none | some .closed => []
    | some mode' => added mode c mode' ++ unescape mode' cs

/-- The characters of a raw string, after its letter: those between its quotes, as they are. -/
def rawValue (cs : List Char) : List Char :=
  let body := (cs.dropWhile (· = '#')).drop 1
  let marks := cs.takeWhile (· = '#')
  let rec upTo : List Char → List Char
    | [] => []
    | '"' :: rest => if (after? marks rest).isSome then [] else '"' :: upTo rest
    | c :: rest => c :: upTo rest
  upTo body

/-- The digits of a whole number and its suffix. A number with a point or an exponent is none. -/
def wholeNumber? (cs : List Char) : Option (String × String) :=
  let (base, body) : Nat × List Char := match cs with
    | '0' :: 'x' :: r => (16, r)
    | '0' :: 'o' :: r => (8, r)
    | '0' :: 'b' :: r => (2, r)
    | r => (10, r)
  let rec go (value : Nat) (found : Bool) : List Char → Option (Nat × Bool × List Char)
    | [] => some (value, found, [])
    | c :: rest =>
      if c = '_' then go value found rest
      else if base = 10 ∧ c = '.' then none
      else if base = 10 ∧ (c = 'e' ∨ c = 'E') then
        let digits := rest.dropWhile (· = '_')
        match digits.head? with
        | some d =>
          if d = '+' ∨ d = '-' then none
          else if d.isDigit then
            let tail := rest.dropWhile Lexer.isDigitOrGap
            match tail.head? with
            | some t => if t = '+' ∨ t = '-' ∨ isIdentStart t then none else some (value, found, c :: rest)
            | none => none
          else some (value, found, c :: rest)
        | none => some (value, found, c :: rest)
      else match Lexer.hexValue? c with
        | some v =>
          if v < base then go (value * base + v) true rest
          else if c.isDigit then none
          else some (value, found, c :: rest)
        | none => some (value, found, c :: rest)
  match go 0 false body with
  | some (value, true, suffix) =>
    if suffix.isEmpty ∨ suffix.head?.any isIdentStart then some (toString value, String.ofList suffix) else none
  | _ => none

/-- The digits of a number with a point or an exponent, and its suffix. -/
def fractional? (cs : List Char) : Option (String × String) :=
  let rec go (dot e sign expo : Bool) : List Char → Option (Bool × List Char × List Char)
    | [] => some (e && !expo, [], [])
    | c :: rest =>
      let keep (d : Char) (dot e sign expo : Bool) :=
        (go dot e sign expo rest).map fun (open_, digits, suffix) => (open_, d :: digits, suffix)
      if c = '_' then go dot e sign expo rest
      else if c.isDigit then keep c dot e sign (expo || e)
      else if c = '.' then if e || dot then none else keep '.' true e sign expo
      else if c = 'e' ∨ c = 'E' then
        match (rest.dropWhile (· = '_')).head? with
        | some d =>
          if d = '-' ∨ d = '+' ∨ d.isDigit then
            if e then if expo then some (false, [], c :: rest) else none else keep 'e' dot true sign expo
          else some (e && !expo, [], c :: rest)
        | none => some (e && !expo, [], c :: rest)
      else if c = '-' ∨ c = '+' then
        if sign || expo || !e then none
        else if c = '-' then keep '-' dot e true expo
        else go dot e true expo rest
      else some (e && !expo, [], c :: rest)
  if cs.head?.any Char.isDigit then
    match go false false false false cs with
    | some (false, digits, suffix) =>
      if suffix.isEmpty ∨ suffix.head?.any isIdentStart then some (String.ofList digits, String.ofList suffix)
      else none
    | _ => none
  else none

/-- The value of a numeric literal. -/
def number? (cs : List Char) : Option Literal :=
  match wholeNumber? cs with
  | some (d, s) => some (.int d s)
  | none => (fractional? cs).map fun (d, s) => .float d s

/-- The value of a literal token. -/
def ofText (text : String) : Option Literal :=
  match text.toList with
  | '"' :: cs => some (.str (String.ofList (unescape .plain cs)))
  | 'r' :: cs => some (.str (String.ofList (rawValue cs)))
  | 'b' :: '\'' :: _ => some .byte
  | 'b' :: _ => some .byteStr
  | 'c' :: _ => some .cStr
  | '\'' :: _ => some .char
  | cs => number? cs

end Literal

end CallProbe.Source
