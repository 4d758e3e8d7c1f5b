import CallProbe.Text.Words

/-! # Globs

Patterns for paths: `?` is a byte and `*` are any bytes of one name, `**` any names, `[a-z]` one of some
bytes, and `{a,b}` one of some patterns. A backslash takes the next character for itself. -/

namespace CallProbe.Files

/-- A part of a glob. -/
inductive GlobPart where
  | byte (b : UInt8)
  | anyByte
  | anyBytes
  /-- Nothing, or names up to a slash: `**` at the start. -/
  | anyStart
  /-- A slash and all that follows: `**` at the end. -/
  | anyEnd
  /-- A slash, or names between slashes: `**` in the middle. -/
  | anyMiddle
  | oneOf (negated : Bool) (ranges : List (UInt8 × UInt8))
  /-- One of some globs; nothing at all if there are none. -/
  | alternatives (branches : List (List GlobPart))
deriving Inhabited, Repr

namespace Glob

def slash : UInt8 := 47

def dot : UInt8 := 46

/-! ### Matching -/

/-- The rests after any number of bytes of one name. -/
def withinName : List UInt8 → List (List UInt8)
  | [] => [[]]
  | b :: bs => (b :: bs) :: if b = slash then [] else withinName bs

/-- The rests after each slash. -/
def afterSlashes : List UInt8 → List (List UInt8)
  | [] => []
  | b :: bs => if b = slash then bs :: afterSlashes bs else afterSlashes bs

/-- All rests. -/
def allRests : List UInt8 → List (List UInt8)
  | [] => [[]]
  | b :: bs => (b :: bs) :: allRests bs

/-- Whether a byte is one of a class. -/
def inClass (negated : Bool) (ranges : List (UInt8 × UInt8)) (b : UInt8) : Bool :=
  (ranges.any fun (lo, hi) => lo ≤ b && b ≤ hi) != negated

mutual

/-- The rests of some bytes after what a part matches at their start. -/
def restsOf : GlobPart → List UInt8 → List (List UInt8)
  | .byte b, c :: bs => if b = c then [bs] else []
  | .anyByte, c :: bs => if c = slash then [] else [bs]
  | .oneOf negated ranges, c :: bs => if inClass negated ranges c then [bs] else []
  | .anyBytes, bs => withinName bs
  | .anyStart, bs => bs :: afterSlashes bs
  | .anyEnd, c :: bs => if c = slash then allRests bs else []
  | .anyMiddle, c :: bs => if c = slash then bs :: afterSlashes bs else []
  | .alternatives [], bs => [bs]
  | .alternatives (b :: branches), bs => restsOfAny (b :: branches) bs
  | _, [] => []

/-- The rests of any of some texts after what parts match at their start. -/
def restsAfter : List GlobPart → List (List UInt8) → List (List UInt8)
  | [], texts => texts
  | p :: ps, texts => restsAfter ps (texts.flatMap fun bs => restsOf p bs).eraseDups

/-- The rests of some bytes after what one of some globs matches at their start. -/
def restsOfAny : List (List GlobPart) → List UInt8 → List (List UInt8)
  | [], _ => []
  | ps :: more, bs => restsAfter ps [bs] ++ restsOfAny more bs

end

/-- Whether parts are bytes only. -/
def isPlain (parts : List GlobPart) : Bool :=
  parts.all fun
    | .byte _ => true
    | _ => false

/-- Whether a part is the given byte. -/
def isByte (b : UInt8) : GlobPart → Bool
  | .byte c => b = c
  | _ => false

/-- Whether parts stand for a path, or for the end of one that has a slash in it, and are not a pattern for a
    name. -/
def isPath : List GlobPart → Bool
  | .anyStart :: parts => isPlain parts && parts.any (isByte slash)
  | parts => isPlain parts

/-- Whether a glob matches a path. Two stars alone match everything. A path that ends in a dot counts as one
    without a name, so a pattern for names that end in a dot matches nothing. -/
def isMatch (parts : List GlobPart) (path : List UInt8) : Bool :=
  match parts with
  | [.anyStart] => true
  | _ =>
    if (parts.getLast?.map (isByte dot)).getD false && !isPath parts then false
    else (restsAfter parts [path]).any List.isEmpty

/-! ### Reading -/

/-- The bytes of a character. -/
def bytesOf (c : Char) : List UInt8 := c.toString.toUTF8.toList

/-- A character as parts. -/
def literal (c : Char) : List GlobPart := (bytesOf c).map .byte

/-- The bytes that a range of characters stands for: a range from the last byte of the first character to the
    first byte of the last one, and the other bytes of both. -/
def byteRanges (lo hi : Char) : List (UInt8 × UInt8) :=
  let single (bs : List UInt8) := bs.map fun b => (b, b)
  if lo = hi then single (bytesOf lo)
  else
    single (bytesOf lo).dropLast ++ ((bytesOf lo).getLast?.toList.zip (bytesOf hi).head?.toList) ++
      single (bytesOf hi).tail

/-- What stands after an opening bracket. -/
inductive ClassReading where
  | closed (ranges : List (Char × Char)) (rest : List Char)
  /-- There is no closing bracket. -/
  | unclosed
  /-- A range ends before it starts. -/
  | backward

/-- Reads the ranges of a class up to its closing bracket, with those read so far, the last one first. -/
def readRanges : Nat → Bool → Bool → List (Char × Char) → List Char → ClassReading
  | 0, _, _, _, _ | _ + 1, _, _, _, [] => .unclosed
  | fuel + 1, first, inRange, ranges, c :: cs =>
    if c = ']' && !first then .closed (if inRange then ('-', '-') :: ranges else ranges) cs
    else if c = '-' && !first && !inRange then readRanges fuel false true ranges cs
    else match inRange, ranges with
      | true, (lo, _) :: more =>
        if c < lo then .backward else readRanges fuel false false ((lo, c) :: more) cs
      | _, _ => readRanges fuel false false ((c, c) :: ranges) cs

/-- Reads a class after its opening bracket: whether it is negated, and its ranges. -/
def readClass (cs : List Char) : Bool × ClassReading :=
  match cs with
  | '!' :: rest | '^' :: rest => (true, readRanges (rest.length + 1) true false [] rest)
  | _ => (false, readRanges (cs.length + 1) true false [] cs)

/-- Alternatives that are open: the parts in front of them, and those that are finished. -/
structure Frame where
  before : List GlobPart
  finished : List (List GlobPart)

/-- Alternatives of the given branches. A branch that matches nothing but the empty text does not count. -/
def alternativesOf (branches : List (List GlobPart)) : GlobPart :=
  .alternatives (branches.filter fun b => !b.all fun
    | .alternatives [] => true
    | _ => false)

/-- Puts a part in place of the last one. What starts with any names keeps that. -/
def replaceLast (part : GlobPart) (parts : List GlobPart) : List GlobPart :=
  match parts.getLast? with
  | some .anyStart => parts
  | _ => parts.dropLast ++ [part]

/-- Adds what two stars stand for to the parts in front of them, from the character before them, whether they
    stand in alternatives, and the rest after them. Also gives that rest without a slash that belongs to the
    stars. -/
def addStars (parts : List GlobPart) (prev : Option Char) (nested : Bool) (rest : List Char) :
    List GlobPart × List Char :=
  let separate := prev = some '/' || (nested && (prev = some ',' || prev = some '\x7b'))
  match rest with
  | '/' :: more =>
    if parts.isEmpty then ([.anyStart], more)
    else if separate then (replaceLast .anyMiddle parts, more)
    else (parts ++ [.anyBytes, .anyBytes], rest)
  | [] =>
    if parts.isEmpty then ([.anyStart], [])
    else if separate then (replaceLast .anyEnd parts, [])
    else (parts ++ [.anyBytes, .anyBytes], [])
  | c :: _ =>
    if !parts.isEmpty && separate && nested && (c = ',' || c = '\x7d') then (replaceLast .anyEnd parts, rest)
    else (parts ++ [.anyBytes, .anyBytes], rest)

/-- Reads a glob, with the parts read so far and the character before the rest. Every turn takes a character. -/
def readFrom : Nat → List Frame → List GlobPart → Option Char → List Char → Option (List GlobPart)
  | 0, _, _, _, _ => none
  | _ + 1, [], parts, _, [] => some parts
  | _ + 1, _ :: _, _, _, [] => none
  | fuel + 1, frames, parts, prev, c :: cs =>
    let go (more : List GlobPart) (rest : List Char) := readFrom fuel frames (parts ++ more) (some c) rest
    if c = '?' then go [.anyByte] cs
    else if c = '*' then
      match cs with
      | '*' :: rest =>
        let (parts, more) := addStars parts prev (!frames.isEmpty) rest
        readFrom fuel frames parts (some (if more.length < rest.length then '/' else '*')) more
      | _ => go [.anyBytes] cs
    else if c = '[' then
      match readClass cs with
      | (negated, .closed ranges rest) =>
        readFrom fuel frames (parts ++ [.oneOf negated (ranges.flatMap fun (lo, hi) => byteRanges lo hi)])
          (some ']') rest
      | (_, .unclosed) => go (literal '[') cs
      | (_, .backward) => none
    else if c = '\x7b' then readFrom fuel (⟨parts, []⟩ :: frames) [] (some c) cs
    else if c = '\x7d' then
      match frames with
      | [] => none
      | f :: outer => readFrom fuel outer (f.before ++ [alternativesOf (f.finished ++ [parts])]) (some c) cs
    else if c = ',' && !frames.isEmpty then
      match frames with
      | [] => none
      | f :: outer => readFrom fuel ({ f with finished := f.finished ++ [parts] } :: outer) [] (some c) cs
    else if c = '\\' then
      match cs with
      | [] => none
      | d :: rest => readFrom fuel frames (parts ++ literal d) (some d) rest
    else go (literal c) cs

/-- Reads a glob. -/
def parse (s : String) : Option (List GlobPart) := readFrom (s.length + 1) [] [] none s.toList

end Glob

end CallProbe.Files
