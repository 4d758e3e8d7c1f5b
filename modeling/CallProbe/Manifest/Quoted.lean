import CallProbe.Text.Quoted

/-! # Strings of a manifest

How a text is written: between double quotes, or between single ones if that spares escapes, and over several
lines if it has some. -/

namespace CallProbe.Manifest

/-- Whether a character cannot stand for itself. -/
def isControl (c : Char) : Bool := c.toNat ≤ 0x1F || c.toNat = 0x7F

/-- The longest run of a character. -/
def longestRun (c : Char) : Nat → Nat → List Char → Nat
  | best, run, [] => max best run
  | best, run, d :: ds => if d = c then longestRun c best (run + 1) ds else longestRun c (max best run) 0 ds

/-- Four hexadecimal digits. -/
def fourDigits (n : Nat) : String :=
  let ds := (Nat.toDigits 16 n).map Char.toUpper
  String.ofList (List.replicate (4 - ds.length) '0' ++ ds)

/-- A character between double quotes. -/
def escapeOne (overLines : Bool) (c : Char) : String :=
  if c = '\x08' then "\\b"
  else if c = '\t' then "\\t"
  else if c = '\n' then (if overLines then "\n" else "\\n")
  else if c = '\x0c' then "\\f"
  else if c = '\r' then "\\r"
  else if c = '"' then "\\\""
  else if c = '\\' then "\\\\"
  else if isControl c then "\\u" ++ fourDigits c.toNat
  else c.toString

/-- Characters between double quotes, of which `spare` more may follow each other as they are. -/
def escapeAll (long : Bool) : Nat → List Char → String
  | _, [] => ""
  | spare, c :: cs =>
    let all := if long then 2 else 0
    if c = '"' && 0 < spare then c.toString ++ escapeAll long (spare - 1) cs
    else escapeOne long c ++ escapeAll long all cs

/-- A text between double quotes, of which three may stand on either side. -/
def escapedText (long : Bool) (cs : List Char) : String :=
  let quotes := if long then "\"\"\"" else "\""
  quotes ++ (if long && cs.contains '\n' then "\n" else "") ++ escapeAll long (if long then 2 else 0) cs ++ quotes

/-- A text between single quotes, of which three may stand on either side. -/
def verbatimText (long : Bool) (cs : List Char) : String :=
  let quotes := if long then "'''" else "'"
  quotes ++ (if long && cs.contains '\n' then "\n" else "") ++ String.ofList cs ++ quotes

/-- A text as a manifest writes it: in the first of four forms that takes it without escapes, or else between
    double quotes. -/
def quoted (s : String) : String :=
  let cs := s.toList
  let singles := longestRun '\'' 0 0 cs
  let doubles := longestRun '"' 0 0 cs
  let control := cs.any fun c => isControl c && c != '\t' && c != '\n'
  let backslash := cs.contains '\\'
  let overLines := cs.contains '\n'
  if control then escapedText overLines cs
  else if !backslash && doubles = 0 && !overLines then escapedText false cs
  else if singles = 0 && !overLines then verbatimText false cs
  else if !backslash && doubles ≤ 2 then escapedText true cs
  else if singles ≤ 2 then verbatimText true cs
  else escapedText overLines cs

end CallProbe.Manifest
