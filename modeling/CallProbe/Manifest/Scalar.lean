import CallProbe.Text.Words
import CallProbe.Time.Seconds

/-! # Numbers and dates

Which words are numbers, dates or times of a manifest. -/

namespace CallProbe.Manifest

def isDigit (c : Char) : Bool := '0' ≤ c && c ≤ '9'

def isHexDigit (c : Char) : Bool := isDigit c || ('a' ≤ c && c ≤ 'f') || ('A' ≤ c && c ≤ 'F')

/-- Digits with single underscores between them, without these. -/
def digitGroups (digit : Char → Bool) (cs : List Char) : Option (List Char) :=
  let groups := Text.piecesFrom '_' [] cs
  if groups.all fun g => !g.isEmpty && g.all digit then some groups.flatten else none

/-- The value of digits in a base. -/
def valueIn (base : Nat) (cs : List Char) : Nat :=
  cs.foldl (fun n c =>
    let d := if isDigit c then c.toNat - '0'.toNat else if 'a' ≤ c then c.toNat - 'a'.toNat + 10 else c.toNat - 'A'.toNat + 10
    n * base + d) 0

/-- A word without a sign, and whether it had a minus sign. -/
def splitSign : List Char → Bool × List Char
  | '-' :: cs => (true, cs)
  | '+' :: cs => (false, cs)
  | cs => (false, cs)

/-- Whether decimal digits are a whole number: no zero stands in front. -/
def isWhole (cs : List Char) : Bool :=
  match digitGroups isDigit cs with
  | some ['0'] => true
  | some ('0' :: _) | none => false
  | some _ => true

/-- Whether a word is an integer of 64 bits. -/
def isInteger (cs : List Char) : Bool :=
  let based (base : Nat) (digit : Char → Bool) (ds : List Char) : Bool :=
    match digitGroups digit ds with
    | some ds => valueIn base ds < Nat.pow 2 63
    | none => false
  match cs with
  | '0' :: 'x' :: ds => based 16 isHexDigit ds
  | '0' :: 'o' :: ds => based 8 (fun c => '0' ≤ c && c ≤ '7') ds
  | '0' :: 'b' :: ds => based 2 (fun c => c = '0' || c = '1') ds
  | cs =>
    let (negative, ds) := splitSign cs
    isWhole ds && valueIn 10 (ds.filter isDigit) < Nat.pow 2 63 + (if negative then 1 else 0)

/-- Whether a word is an exponent: a sign and digits. -/
def isExponent (cs : List Char) : Bool := (digitGroups isDigit (splitSign cs).2).isSome

/-- Whether a word is a floating-point number. A positive one must not be too large for the type. -/
def isFloat (cs : List Char) : Bool :=
  let (negative, ds) := splitSign cs
  if ds = ['i', 'n', 'f'] ∨ ds = ['n', 'a', 'n'] then true
  else
    let isMark (c : Char) : Bool := c = 'e' || c = 'E'
    let front := ds.takeWhile (!isMark ·)
    let exponent := (ds.dropWhile (!isMark ·)).drop 1
    let hasExponent := ds.any isMark
    let whole := front.takeWhile (· != '.')
    let fraction := (front.dropWhile (· != '.')).drop 1
    let hasFraction := front.contains '.'
    let fits := match Time.Float64.parse (String.ofList (ds.filter (· != '_'))) with
      | some (.finite _ _ _) => true
      | _ => false
    (hasExponent || hasFraction) && isWhole whole && (!hasFraction || (digitGroups isDigit fraction).isSome) &&
      (!hasExponent || isExponent exponent) && (negative || fits)

/-! ### Dates and times -/

/-- A number of exactly `n` digits. -/
def digits? (n : Nat) (cs : List Char) : Option Nat :=
  if cs.length = n ∧ cs.all isDigit then some (valueIn 10 cs) else none

/-- The days of a month. -/
def daysIn (year month : Nat) : Nat :=
  let leap := year % 4 = 0 ∧ (year % 100 ≠ 0 ∨ year % 400 = 0)
  if month = 2 then (if leap then 29 else 28)
  else if month = 4 ∨ month = 6 ∨ month = 9 ∨ month = 11 then 30 else 31

/-- Whether a word is a date. -/
def isDate (cs : List Char) : Bool :=
  match (Text.piecesFrom '-' [] cs) with
  | [y, m, d] =>
    match digits? 4 y, digits? 2 m, digits? 2 d with
    | some y, some m, some d => 1 ≤ m && m ≤ 12 && 1 ≤ d && d ≤ daysIn y m
    | _, _, _ => false
  | _ => false

/-- Whether a word is an hour and a minute. -/
def isHourMinute (cs : List Char) : Bool :=
  match (Text.piecesFrom ':' [] cs) with
  | [h, m] =>
    match digits? 2 h, digits? 2 m with
    | some h, some m => h ≤ 23 && m ≤ 59
    | _, _ => false
  | _ => false

/-- Whether a word is a time: hour, minute, second and parts of one. -/
def isTime (cs : List Char) : Bool :=
  let seconds := (cs.drop 6).takeWhile (· != '.')
  let parts := (cs.drop 6).dropWhile (· != '.')
  isHourMinute (cs.take 5) && cs[5]? == some ':' &&
    (match digits? 2 seconds with
      | some s => s ≤ 60
      | none => false) &&
    (parts.isEmpty || (1 < parts.length && (parts.drop 1).all isDigit))

/-- Whether a word is a time with an offset. -/
def isOffsetTime (cs : List Char) : Bool :=
  let isSign (c : Char) : Bool := c = '+' || c = '-'
  match cs.reverse with
  | 'Z' :: front | 'z' :: front => isTime front.reverse
  | _ => isTime (cs.takeWhile (!isSign ·)) && isHourMinute ((cs.dropWhile (!isSign ·)).drop 1)

/-- Whether a word is a time, or a date with or without one. -/
def isDateTime (cs : List Char) : Bool :=
  let rest := cs.drop 10
  isTime cs || (isDate (cs.take 10) &&
    match rest with
    | [] => true
    | mark :: time => (mark = 'T' || mark = 't' || mark = ' ') && (isTime time || isOffsetTime time))

/-- Whether a word is a number, a date or a time. -/
def isScalar (cs : List Char) : Bool := isDateTime cs || isFloat cs || isInteger cs

end CallProbe.Manifest
