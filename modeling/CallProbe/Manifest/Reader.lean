import CallProbe.Manifest.Item
import CallProbe.Manifest.Scalar

/-! # Reading values

Keys and values of a manifest from text. A reader takes characters from the front, or refuses. -/

namespace CallProbe.Manifest

/-- A reader of characters. -/
abbrev Reader := StateT (List Char) Option

/-- Refuses what stands next. -/
def refuse {α : Type} : Reader α := fun _ => none

namespace Reader

/-- Takes the characters in front that fulfil a condition. -/
def takeWhile (p : Char → Bool) : Reader (List Char) := fun cs => some (cs.takeWhile p, cs.dropWhile p)

/-- Takes the given characters. -/
def exactly (s : String) : Reader Unit := fun cs => (Text.after? s.toList cs).map ((), ·)

/-- Takes the given characters if they stand next. -/
def accept (s : String) : Reader Bool := fun cs =>
  match Text.after? s.toList cs with
  | some rest => some (true, rest)
  | none => some (false, cs)

/-- The next character, which is not taken. -/
def peek : Reader (Option Char) := fun cs => some (cs.head?, cs)

/-- Takes a character. -/
def next : Reader Char
  | [] => none
  | c :: cs => some (c, cs)

/-- Reads, and gives also the text that was taken. -/
def withText {α : Type} (r : Reader α) : Reader (α × String) := fun cs => do
  let (a, rest) ← r cs
  return ((a, String.ofList (cs.take (cs.length - rest.length))), rest)

end Reader

open Reader

/-- Blanks within a line. -/
def isGap (c : Char) : Bool := c = ' ' || c = '\t'

/-- Characters of a comment or a string that stand for themselves. -/
def isPlain (c : Char) : Bool := c = '\t' || (' ' ≤ c && c ≤ '~') || 0x80 ≤ c.toNat

/-- Text without carriage returns. -/
def withoutReturns (s : String) : String := String.ofList (s.toList.filter (· != '\r'))

/-- Skips blanks within a line. -/
def gap : Reader Unit := do let _ ← takeWhile isGap

/-- Takes the end of a line, if it stands next. -/
def acceptLineEnd : Reader Bool := do
  if ← accept "\r\n" then return true else accept "\n"

/-- The end of a line. -/
def lineEnd : Reader Unit := do
  if ← acceptLineEnd then return () else refuse

/-- Skips a comment, if there is one. -/
def comment : Reader Unit := do
  if (← peek) = some '#' then let _ ← takeWhile isPlain

/-- What may follow on a line: blanks and a comment, then the end of the line or of the text. -/
def restOfLine : Reader String := do
  let (_, text) ← withText (do gap; comment)
  if (← get).isEmpty then return text
  lineEnd
  return text

/-! ### Strings -/

/-- The character with a code point in `n` hexadecimal digits. -/
def codePoint (n : Nat) : Reader Char := do
  let cs ← get
  let ds := cs.take n
  let v := valueIn 16 ds
  if ds.length = n ∧ ds.all isHexDigit ∧ v.isValidChar then
    set (cs.drop n)
    return Char.ofNat v
  else refuse

/-- A character after a backslash. -/
def escaped : Reader Char := do
  let c ← next
  if c = 'b' then return '\x08'
  else if c = 't' then return '\t'
  else if c = 'n' then return '\n'
  else if c = 'f' then return '\x0c'
  else if c = 'r' then return '\r'
  else if c = '"' then return '"'
  else if c = '\\' then return '\\'
  else if c = 'u' then codePoint 4
  else if c = 'U' then codePoint 8
  else refuse

/-- The rest of a string on one line. Every turn takes a character. -/
def basicRest : Nat → List Char → Reader String
  | 0, _ => refuse
  | fuel + 1, read => do
    let c ← next
    if c = '"' then return String.ofList read.reverse
    else if c = '\\' then basicRest fuel ((← escaped) :: read)
    else if isPlain c then basicRest fuel (c :: read)
    else refuse

/-- Skips blanks and ends of lines. -/
def skipLines : Nat → Reader Unit
  | 0 => return ()
  | fuel + 1 => do
    gap
    if ← acceptLineEnd then skipLines fuel

/-- Closing quotes of a string over several lines: three, and up to two that belong to it. -/
def closing (quote : Char) : Reader (Option (List Char)) := do
  let n := ((← get).takeWhile (· = quote)).length
  if n < 3 then return none
  else if n ≤ 5 then
    modify (·.drop n)
    return some (List.replicate (n - 3) quote)
  else refuse

/-- The rest of a string over several lines, in which a backslash is an escape if `escapes`. -/
def longRest (quote : Char) (escapes : Bool) : Nat → List Char → Reader String
  | 0, _ => refuse
  | fuel + 1, read => do
    match ← closing quote with
    | some extra => return String.ofList (read.reverse ++ extra)
    | none =>
      if ← acceptLineEnd then longRest quote escapes fuel ('\n' :: read)
      else
        let c ← next
        if c = '\\' && escapes then
          let cs ← get
          match cs.dropWhile isGap with
          | '\n' :: _ | '\r' :: '\n' :: _ =>
            skipLines (cs.length + 1)
            longRest quote escapes fuel read
          | _ => longRest quote escapes fuel ((← escaped) :: read)
        else if isPlain c then longRest quote escapes fuel (c :: read)
        else refuse

/-- The rest of a string over several lines; an end of line right after the quotes does not count. -/
def long (quote : Char) (escapes : Bool) : Reader String := do
  let _ ← acceptLineEnd
  longRest quote escapes ((← get).length + 1) []

/-- A string on one line between double quotes, of which the first is taken. -/
def basic : Reader String := do basicRest ((← get).length + 1) []

/-- A string on one line between single quotes, of which the first is taken. -/
def verbatim : Reader String := do
  let cs ← takeWhile fun c => isPlain c && c != '\''
  exactly "'"
  return String.ofList cs

/-! ### Keys -/

def isBare (c : Char) : Bool := isDigit c || ('a' ≤ c && c ≤ 'z') || ('A' ≤ c && c ≤ 'Z') || c = '_' || c = '-'

/-- One key. -/
def simpleKey : Reader String := do
  if ← accept "\"" then basic
  else if ← accept "'" then verbatim
  else
    let cs ← takeWhile isBare
    if cs.isEmpty then refuse else return String.ofList cs

/-- A key as it is written: its name, its spelling, and the blanks on either side. -/
structure WrittenKey where
  name : String
  spelling : String
  before : String
  after : String
deriving DecidableEq, Repr

/-- A key with the blanks around it. -/
def writtenKey : Reader WrittenKey := do
  let (_, before) ← withText gap
  let (name, spelling) ← withText simpleKey
  let (_, after) ← withText gap
  return ⟨name, spelling, before, after⟩

/-- How deep values may be nested, and how many keys may be joined by dots. -/
def depthLimit : Nat := 79

/-- At most as many keys as the given number, with dots between them. -/
def keysUpTo : Nat → Reader (List WrittenKey)
  | 0 => refuse
  | n + 1 => do
    let k ← writtenKey
    if ← accept "." then return k :: (← keysUpTo n) else return [k]

/-- The keys of a written dotted key: what stands around it goes to the last one. -/
def keysOf (ks : List WrittenKey) : List Key :=
  let first := ks.head?.map (·.before)
  let last := ks.getLast?.map (·.after)
  ks.zipIdx.map fun (k, i) =>
    let isLast := i + 1 == ks.length
    { name := k.name, spelling := k.spelling,
      inner := ⟨some (if i == 0 then "" else k.before), some (if isLast then "" else k.after)⟩,
      outer := if isLast then ⟨first, last⟩ else {} }

/-- A dotted key with a text in front of it. -/
def startWith (before : String) (ks : List Key) : List Key :=
  match ks.getLast? with
  | some k => ks.dropLast ++ [{ k with outer := { k.outer with before := some (before ++ k.outer.before.getD "") } }]
  | none => []

/-- Keys with dots between them. -/
def dottedKey : Reader (List Key) := do return keysOf (← keysUpTo depthLimit)

/-! ### Values -/

/-- Skips blanks, ends of lines and comments. -/
def skipAll : Nat → Reader Unit
  | 0 => return ()
  | fuel + 1 => do
    gap
    comment
    if ← acceptLineEnd then skipAll fuel

/-- What stands around an item of an array. -/
def aroundItem : Reader String := do
  let (_, text) ← withText (do skipAll ((← get).length + 1))
  return withoutReturns text

/-- Characters of numbers, dates and words. -/
def isWordChar (c : Char) : Bool := isBare c || c = '+' || c = '.' || c = ':'

/-- A word that is a value. A date may be followed by a blank and a time. -/
def wordValue : Reader Data := do
  let cs ← get
  let w := cs.takeWhile isWordChar
  let rest := cs.dropWhile isWordChar
  let long := w ++ ' ' :: (rest.drop 1).takeWhile isWordChar
  if w = ['t', 'r', 'u', 'e'] then set rest; return .truth true
  else if w = ['f', 'a', 'l', 's', 'e'] then set rest; return .truth false
  else if isDate w && rest.head? == some ' ' && isDateTime long then
    set (cs.drop long.length)
    return .scalar (String.ofList long)
  else if isScalar w then set rest; return .scalar (String.ofList w)
  else refuse

/-- A value that holds no other values. -/
def plainValue : Reader Data := do
  if ← accept "\"\"\"" then return .text (← long '"' true)
  else if ← accept "'''" then return .text (← long '\'' false)
  else if ← accept "\"" then return .text (← basic)
  else if ← accept "'" then return .text (← verbatim)
  else wordValue

mutual

/-- A value with values nested in it at most `depth` deep. -/
def valueFuel : Nat → Nat → Reader Value
  | 0, _ => refuse
  | fuel + 1, depth => do
    if ← accept "[" then
      if depth = 0 then refuse
      let (items, inside) ← arrayFuel fuel (depth - 1)
      return ⟨"[" ++ inside ++ "]", .array items⟩
    else if ← accept "\x7b" then
      if depth = 0 then refuse
      let (_, before) ← withText gap
      if ← accept "\x7d" then return ⟨"\x7b" ++ before ++ "\x7d", .table []⟩
      else return .ofItems (← tableFuel fuel (depth - 1) before ({}, [])).2
    else
      let (d, written) ← withText plainValue
      return ⟨written, d⟩

/-- The items of an array up to its end, and their text. A comma may stand after the last one. -/
def arrayFuel : Nat → Nat → Reader (List Data × String)
  | 0, _ => refuse
  | fuel + 1, depth => do
    let before ← aroundItem
    if ← accept "]" then return ([], before)
    else
      let v ← valueFuel fuel depth
      let text := before ++ v.written ++ (← aroundItem)
      if ← accept "," then
        let (more, rest) ← arrayFuel fuel depth
        return (v.data :: more, text ++ "," ++ rest)
      else
        exactly "]"
        return ([v.data], text)

/-- The entries of a table between braces up to its end, after those that were read. The text `before` the next
    one was read already. -/
def tableFuel : Nat → Nat → String → Body → Reader Body
  | 0, _, _, _ => refuse
  | fuel + 1, depth, before, body => do
    let keys ← dottedKey
    exactly "="
    let (_, blanks) ← withText gap
    let v ← valueFuel fuel depth
    let (_, after) ← withText gap
    match addEntry (startWith before keys) (v.between blanks after) body with
    | none => refuse
    | some body =>
      if ← accept "," then tableFuel fuel depth "" body
      else
        exactly "\x7d"
        return body

end

/-- A value. -/
def value : Reader Value := do valueFuel ((← get).length + 1) depthLimit

end CallProbe.Manifest
