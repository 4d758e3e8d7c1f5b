import CallProbe.Text.Words

/-! # Quoted strings

How a text is written as a string literal: between double quotes, with a backslash before a quote and a
backslash, the short escapes for the usual control characters, and the code point in hexadecimal for a
character that does not show or that would attach to the one before it. -/

namespace CallProbe.Text

/-- The lower-case hexadecimal digits of a number, without leading zeros. -/
def hexDigits (n : Nat) : String := String.ofList (Nat.toDigits 16 n)

/-- A character named by its code point. -/
def codePointEscape (c : Char) : String := "\\u\x7b" ++ hexDigits c.toNat ++ "\x7d"

/-- One character of a quoted string; `next` is the character after it. A zero character has a longer
    form before an octal digit, so that the two are not read as one. -/
def escapeChar (c : Char) (next : Option Char) : String :=
  if c = '\x00' then
    match next with
    | some d => if '0' ≤ d ∧ d ≤ '7' then "\\x00" else "\\0"
    | none => "\\0"
  else if c = '\t' then "\\t"
  else if c = '\r' then "\\r"
  else if c = '\n' then "\\n"
  else if c = '"' then "\\\""
  else if c = '\\' then "\\\\"
  else if graphemeExtend.contains c then codePointEscape c
  else if isPrintable c then c.toString
  else codePointEscape c

/-- The characters of a quoted string without its quotes. -/
def escapeChars : List Char → String
  | [] => ""
  | c :: cs => escapeChar c cs.head? ++ escapeChars cs

/-- The string literal that stands for a text. -/
def quote (s : String) : String := "\"" ++ escapeChars s.toList ++ "\""

end CallProbe.Text
