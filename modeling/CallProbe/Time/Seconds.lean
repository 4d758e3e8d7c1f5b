import CallProbe.Time.Duration

/-! # Numbers of seconds

A number of seconds is read from decimal text into the nearest binary fraction with 53 bits, and turned
into the nearest number of nanoseconds; in both steps a tie goes to the even neighbour. -/

namespace CallProbe.Time

/-- `num / den` rounded to the nearest whole number, a tie to the even one. -/
def roundDiv (num den : Nat) : Nat :=
  let q := num / den
  let r := num % den
  if 2 * r < den then q else if den < 2 * r then q + 1 else if q % 2 = 0 then q else q + 1

/-- A binary floating-point number. -/
inductive Float64 where
  /-- `mantissa * 2 ^ exponent`, with its sign. -/
  | finite (negative : Bool) (mantissa : Nat) (exponent : Int)
  | infinite (negative : Bool)
  | notANumber
deriving DecidableEq, Repr

/-- The numerator and denominator of `n * b ^ e`. -/
def scaled (n b : Nat) (e : Int) : Nat × Nat :=
  match e with
  | .ofNat k => (n * Nat.pow b k, 1)
  | .negSucc k => (n, Nat.pow b (k + 1))

/-- The nearest floating-point number to `num / den`, given a first guess for its exponent. -/
def nearestAt (negative : Bool) (num den : Nat) (exponent : Int) : Float64 :=
  let e := max exponent (-1074)
  let mantissa := match e with
    | .ofNat k => roundDiv num (den * Nat.pow 2 k)
    | .negSucc k => roundDiv (num * Nat.pow 2 (k + 1)) den
  let (m, e) := if mantissa = Nat.pow 2 53 then (Nat.pow 2 52, e + 1) else (mantissa, e)
  if 971 < e then .infinite negative else .finite negative m e

/-- The exponent at which `num / den` has 53 bits before the point. -/
def exponentOf (num den : Nat) : Int :=
  let guess : Int := (Nat.log2 num : Int) - (Nat.log2 den : Int) - 52
  let fits (e : Int) : Bool := match e with
    | .ofNat k => num < den * Nat.pow 2 k * Nat.pow 2 53
    | .negSucc k => num * Nat.pow 2 (k + 1) < den * Nat.pow 2 53
  if fits (guess - 1) then guess - 1 else if fits guess then guess else guess + 1

/-- The nearest floating-point number to `digits * 10 ^ exponent`. -/
def nearest (negative : Bool) (digits : Nat) (exponent : Int) : Float64 :=
  let size : Int := (toString digits).length + exponent
  if digits = 0 ∨ size < -400 then .finite negative 0 0
  else if 400 < size then .infinite negative
  else
    let (num, den) := scaled digits 10 exponent
    nearestAt negative num den (exponentOf num den)

/-- The value of decimal digits. -/
def digitsValue (cs : List Char) : Nat := cs.foldl (fun n c => n * 10 + (c.toNat - '0'.toNat)) 0

/-- An exponent: a sign and digits, which must be all that is left. -/
def readExponent : List Char → Option Int
  | [] => some 0
  | c :: cs =>
    if c = 'e' ∨ c = 'E' then
      let (negative, ds) : Bool × List Char := match cs with
        | '-' :: ds => (true, ds)
        | '+' :: ds => (false, ds)
        | ds => (false, ds)
      if ds.isEmpty ∨ !ds.all Char.isDigit then none
      else some (if negative then -(digitsValue ds : Int) else digitsValue ds)
    else none

/-- A number without its sign. -/
def readUnsigned (negative : Bool) (cs : List Char) : Option Float64 :=
  let lower := cs.map Char.toLower
  if lower = "inf".toList ∨ lower = "infinity".toList then some (.infinite negative)
  else if lower = "nan".toList then some .notANumber
  else
    let whole := cs.takeWhile Char.isDigit
    let rest := cs.dropWhile Char.isDigit
    let (part, rest) : List Char × List Char := match rest with
      | '.' :: ds => (ds.takeWhile Char.isDigit, ds.dropWhile Char.isDigit)
      | ds => ([], ds)
    if whole.isEmpty ∧ part.isEmpty then none
    else (readExponent rest).map fun e => nearest negative (digitsValue (whole ++ part)) (e - part.length)

/-- Reads a number from decimal text. -/
def Float64.parse (s : String) : Option Float64 :=
  match s.toList with
  | '-' :: cs => readUnsigned true cs
  | '+' :: cs => readUnsigned false cs
  | cs => readUnsigned false cs

/-- Why a number of seconds is no time limit. -/
inductive LimitFault where
  /-- Infinite, not a number, or negative. -/
  | unusable
  | tooLarge
deriving DecidableEq, Repr

/-- The fault in words. -/
def LimitFault.message : LimitFault → String
  | unusable => "`time_limit` must be a finite, non-negative number of seconds"
  | tooLarge => "`time_limit` is too large"

/-- The time limit of a number of seconds, to the nearest nanosecond. -/
def limitOfSeconds : Float64 → Except LimitFault Duration
  | .finite negative m e =>
    if negative ∧ 0 < m then .error .unusable
    else
      let (num, den) := scaled m 2 e
      if Nat.pow 2 64 * den ≤ num then .error .tooLarge else .ok ⟨roundDiv (num * second) den⟩
  | _ => .error .unusable

end CallProbe.Time
