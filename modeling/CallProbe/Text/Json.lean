import CallProbe.Text.Words
import CallProbe.Time.Seconds

/-! # Messages in JSON

A reader for the messages that other programs write, one object a line. -/

namespace CallProbe.Text

/-- A JSON value. Of a number only its text is kept. -/
inductive Json where
  | null
  | truth (b : Bool)
  | number (written : String)
  | text (s : String)
  | array (items : List Json)
  | object (fields : List (String × Json))
deriving Inhabited, Repr

namespace Json

/-- The value of a field, the last one if the name is given more than once. -/
def get? (j : Json) (name : String) : Option Json :=
  match j with
  | object fields => fields.reverse.lookup name
  | _ => none

/-- The text that a value is. -/
def text? : Json → Option String
  | text s => some s
  | _ => none

/-- A reader takes characters from the front, or refuses. -/
abbrev Reader := StateT (List Char) Option

def refuse {α : Type} : Reader α := fun _ => none

def isBlankChar (c : Char) : Bool := c = ' ' || c = '\t' || c = '\n' || c = '\r'

/-- Skips blanks. -/
def blanks : Reader Unit := modify (·.dropWhile isBlankChar)

/-- Takes the given characters if they stand next. -/
def accept (s : String) : Reader Bool := fun cs =>
  match after? s.toList cs with
  | some rest => some (true, rest)
  | none => some (false, cs)

def exactly (s : String) : Reader Unit := do
  if ← accept s then return () else refuse

def next : Reader Char
  | [] => none
  | c :: cs => some (c, cs)

def isDecimal (c : Char) : Bool := '0' ≤ c && c ≤ '9'

/-- The value of a hexadecimal digit. -/
def hexValue? (c : Char) : Option Nat :=
  if isDecimal c then some (c.toNat - '0'.toNat)
  else if 'a' ≤ c ∧ c ≤ 'f' then some (c.toNat - 'a'.toNat + 10)
  else if 'A' ≤ c ∧ c ≤ 'F' then some (c.toNat - 'A'.toNat + 10)
  else none

/-- Four hexadecimal digits. -/
def unit : Reader Nat := do
  let cs ← get
  match (cs.take 4).mapM hexValue? with
  | some [a, b, c, d] =>
    set (cs.drop 4)
    return ((a * 16 + b) * 16 + c) * 16 + d
  | _ => refuse

/-- A character given by its code. One beyond the first 65536 takes two codes, and neither may stand alone. -/
def coded : Reader Char := do
  let n ← unit
  if 0xD800 ≤ n ∧ n < 0xDC00 then
    exactly "\\u"
    let m ← unit
    if 0xDC00 ≤ m ∧ m < 0xE000 then return Char.ofNat (0x10000 + (n - 0xD800) * 0x400 + (m - 0xDC00)) else refuse
  else if 0xDC00 ≤ n ∧ n < 0xE000 then refuse
  else return Char.ofNat n

/-- A character after a backslash. -/
def escaped : Reader Char := do
  let c ← next
  if c = '"' || c = '\\' || c = '/' then return c
  else if c = 'b' then return '\x08'
  else if c = 'f' then return '\x0c'
  else if c = 'n' then return '\n'
  else if c = 'r' then return '\r'
  else if c = 't' then return '\t'
  else if c = 'u' then coded
  else refuse

/-- The rest of a string. Every turn takes a character. -/
def stringRest : Nat → List Char → Reader String
  | 0, _ => refuse
  | fuel + 1, read => do
    let c ← next
    if c = '"' then return String.ofList read.reverse
    else if c = '\\' then stringRest fuel ((← escaped) :: read)
    else if c.toNat < 0x20 then refuse
    else stringRest fuel (c :: read)

def string : Reader String := do stringRest ((← get).length + 1) []

/-- Digits, of which there must be some. -/
def digits : Reader String := do
  let cs ← get
  let ds := cs.takeWhile isDecimal
  if ds.isEmpty then refuse
  set (cs.dropWhile isDecimal)
  return String.ofList ds

/-- A number. One that is too large is refused. -/
def numberValue : Reader Json := do
  let sign ← accept "-"
  let whole ← digits
  if whole.length > 1 ∧ whole.startsWith "0" then refuse
  let fraction ← if ← accept "." then (do return "." ++ (← digits)) else pure ""
  let small ← accept "e"
  let marked ← if small then pure true else accept "E"
  let exponent ← if marked then (do
      let minus ← accept "-"
      let _ ← if minus then pure true else accept "+"
      return "e" ++ (if minus then "-" else "") ++ (← digits))
    else pure ""
  let written := (if sign then "-" else "") ++ whole ++ fraction ++ exponent
  match Time.Float64.parse written with
  | some (.finite _ _ _) => return .number written
  | _ => refuse

mutual

/-- A value with fewer than `depth` values around it. -/
def valueFuel : Nat → Nat → Reader Json
  | 0, _ => refuse
  | fuel + 1, depth => do
    blanks
    if ← accept "null" then return .null
    else if ← accept "true" then return .truth true
    else if ← accept "false" then return .truth false
    else if ← accept "\"" then return .text (← string)
    else if ← accept "[" then
      if depth ≤ 1 then refuse
      blanks
      if ← accept "]" then return .array [] else return .array (← itemsFuel fuel (depth - 1))
    else if ← accept "\x7b" then
      if depth ≤ 1 then refuse
      blanks
      if ← accept "\x7d" then return .object [] else return .object (← fieldsFuel fuel (depth - 1))
    else numberValue

/-- The items of an array up to its end. -/
def itemsFuel : Nat → Nat → Reader (List Json)
  | 0, _ => refuse
  | fuel + 1, depth => do
    let j ← valueFuel fuel depth
    blanks
    if ← accept "," then return j :: (← itemsFuel fuel depth)
    exactly "]"
    return [j]

/-- The fields of an object up to its end. -/
def fieldsFuel : Nat → Nat → Reader (List (String × Json))
  | 0, _ => refuse
  | fuel + 1, depth => do
    blanks
    exactly "\""
    let name ← string
    blanks
    exactly ":"
    let j ← valueFuel fuel depth
    blanks
    if ← accept "," then return (name, j) :: (← fieldsFuel fuel depth)
    exactly "\x7d"
    return [(name, j)]

end

/-- How deep values may be nested. -/
def depthLimit : Nat := 128

/-- Reads a value that is all of a text. -/
def parse? (s : String) : Option Json := do
  let cs := s.toList
  let (j, rest) ← valueFuel (2 * cs.length + 2) depthLimit cs
  if rest.all isBlankChar then some j else none

end Json

end CallProbe.Text
