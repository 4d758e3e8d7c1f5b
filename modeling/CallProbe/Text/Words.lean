import CallProbe.Text.CharClass

/-! # Words and blanks

Trimming, splitting at blanks and replacing, on lists of characters. A blank is any character of
`isBlank`, so the rules are the same for every writing system. -/

namespace CallProbe.Text

/-- The characters without the blanks on either side. -/
def trimBlanks (cs : List Char) : List Char :=
  ((cs.dropWhile isBlank).reverse.dropWhile isBlank).reverse

/-- The text without the blanks on either side. -/
def trim (s : String) : String := String.ofList (trimBlanks s.toList)

/-- The maximal runs of characters that are not blanks, with `word` the run read so far, backwards. -/
def wordsFrom : List Char → List Char → List (List Char)
  | word, [] => if word.isEmpty then [] else [word.reverse]
  | word, c :: cs =>
    if isBlank c then
      if word.isEmpty then wordsFrom [] cs else word.reverse :: wordsFrom [] cs
    else wordsFrom (c :: word) cs

/-- The maximal runs of characters that are not blanks. -/
def words (cs : List Char) : List (List Char) := wordsFrom [] cs

/-- The rest of `cs` after the leading characters `p`, if it starts with them. -/
def after? : List Char → List Char → Option (List Char)
  | [], cs => some cs
  | _ :: _, [] => none
  | p :: ps, c :: cs => if p = c then after? ps cs else none

/-- Replaces the two-character sequence `a b` by `r`, from left to right. -/
def replacePair (a b r : Char) : List Char → List Char
  | [] => []
  | [c] => [c]
  | c :: d :: cs => if c = a ∧ d = b then r :: replacePair a b r cs else c :: replacePair a b r (d :: cs)

/-- Joins texts with a separator between neighbours. -/
def joinWith (sep : String) : List String → String
  | [] => ""
  | [s] => s
  | s :: t :: rest => s ++ sep ++ joinWith sep (t :: rest)

/-! ### Searching and splitting -/

/-- Whether `p` occurs in `cs`. -/
def occursIn (p : List Char) : List Char → Bool
  | [] => p.isEmpty
  | c :: cs => (after? p (c :: cs)).isSome || occursIn p cs

/-- Whether the text `part` occurs in `s`. -/
def contains (part s : String) : Bool := occursIn part.toList s.toList

/-- What follows the last occurrence of `p`, or else all of `cs`. -/
def restAfterLast (p : List Char) : List Char → List Char
  | [] => []
  | c :: cs =>
    if occursIn p cs then restAfterLast p cs
    else (after? p (c :: cs)).getD (c :: cs)

/-- What follows the last occurrence of `sep`, or else all of `s`. -/
def afterLast (sep s : String) : String := String.ofList (restAfterLast sep.toList s.toList)

/-- The pieces of `cs` between occurrences of `sep`, with `piece` the piece read so far, backwards. -/
def piecesFrom (sep : Char) : List Char → List Char → List (List Char)
  | piece, [] => [piece.reverse]
  | piece, c :: cs => if c = sep then piece.reverse :: piecesFrom sep [] cs else piecesFrom sep (c :: piece) cs

/-- The pieces of a text between occurrences of a character. -/
def splitOnChar (sep : Char) (s : String) : List String := (piecesFrom sep [] s.toList).map String.ofList

/-- The lines of a text: what ends with a line feed, which a carriage return may stand before, and what is
    left over. -/
def lines (s : String) : List String :=
  let pieces := piecesFrom '\n' [] s.toList
  let whole := pieces.dropLast.map fun l => if l.getLast? = some '\r' then l.dropLast else l
  let last := pieces.getLast?.getD []
  (if last.isEmpty then whole else whole ++ [last]).map String.ofList

end CallProbe.Text
