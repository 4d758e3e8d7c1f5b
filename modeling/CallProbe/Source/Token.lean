import CallProbe.Text.Words

/-! # Tokens

Program text as a tree of tokens. Brackets are matched, so a bracketed part is one token tree; every
punctuation character is a token of its own and says whether the next character is punctuation too, from
which operators are put together. Each token carries the place where it starts. -/

namespace CallProbe.Source

/-- A place in a text: the line, counted from one, and the characters before it on that line. -/
structure Pos where
  line : Nat
  column : Nat
deriving DecidableEq, Repr, Inhabited

/-- The place of tokens that stand in no text. -/
def Pos.none : Pos := ⟨1, 0⟩

/-- The three kinds of brackets. -/
inductive Delimiter where
  | paren
  | bracket
  | brace
deriving DecidableEq, Repr, Inhabited

/-- The opening bracket. -/
def Delimiter.opening : Delimiter → String
  | .paren => "("
  | .bracket => "["
  | .brace => "\x7b"

/-- The closing bracket. -/
def Delimiter.closing : Delimiter → String
  | .paren => ")"
  | .bracket => "]"
  | .brace => "\x7d"

/-- A token, or a bracketed sequence of them. A lifetime's text has its apostrophe. -/
inductive TokenTree where
  | ident (text : String) (pos : Pos)
  | lifetime (text : String) (pos : Pos)
  | literal (text : String) (pos : Pos)
  | punct (char : Char) (joint : Bool) (pos : Pos)
  | group (delim : Delimiter) (opened : Pos) (content : List TokenTree) (closed : Pos)
deriving Inhabited

namespace TokenTree

/-- Where a token starts. -/
def start : TokenTree → Pos
  | ident _ p | lifetime _ p | literal _ p | punct _ _ p => p
  | group _ p _ _ => p

/-- Where a token starts, and for a bracketed part where its closing bracket stands. -/
def finish : TokenTree → Pos
  | ident _ p | lifetime _ p | literal _ p | punct _ _ p => p
  | group _ _ _ p => p

/-- The texts of the tokens in order, brackets included. -/
def spellings : TokenTree → List String
  | ident t _ | lifetime t _ | literal t _ => [t]
  | punct c _ _ => [c.toString]
  | group d _ content _ => d.opening :: spellingsAll content ++ [d.closing]
where
  spellingsAll : List TokenTree → List String
    | [] => []
    | t :: ts => t.spellings ++ spellingsAll ts

/-- The number of tokens, brackets counted once a pair. -/
def size : TokenTree → Nat
  | group _ _ content _ => sizeAll content + 1
  | _ => 1
where
  sizeAll : List TokenTree → Nat
    | [] => 0
    | t :: ts => t.size + sizeAll ts

/-- Equality of tokens, places left aside. -/
def same : TokenTree → TokenTree → Bool
  | ident a _, ident b _ => a == b
  | lifetime a _, lifetime b _ => a == b
  | literal a _, literal b _ => a == b
  | punct a j _, punct b k _ => a == b && j == k
  | group d _ as _, group e _ bs _ => d == e && sameAll as bs
  | _, _ => false
where
  sameAll : List TokenTree → List TokenTree → Bool
    | [], [] => true
    | a :: as, b :: bs => a.same b && sameAll as bs
    | _, _ => false

/-- Whether a token, at any depth, is the given word. -/
def mentions (word : String) : TokenTree → Bool
  | ident t _ => t == word
  | group _ _ content _ => mentionsAny word content
  | _ => false
where
  mentionsAny (word : String) : List TokenTree → Bool
    | [] => false
    | t :: ts => t.mentions word || mentionsAny word ts

end TokenTree

/-- A sequence of tokens with one space between neighbours. -/
def spell (ts : List TokenTree) : String :=
  Text.joinWith " " (ts.flatMap TokenTree.spellings)

mutual

/-- The text of a token on one line, with blanks inside braces. -/
def TokenTree.line : TokenTree → String
  | .ident t _ | .lifetime t _ | .literal t _ => t
  | .punct c _ _ => c.toString
  | .group .brace _ content _ =>
    "\x7b " ++ lineOf content ++ (if content.isEmpty then "" else " ") ++ "\x7d"
  | .group d _ content _ => d.opening ++ lineOf content ++ d.closing

/-- The text of tokens on one line: one blank between neighbours, and none inside an operator. -/
def lineOf : List TokenTree → String
  | [] => ""
  | [t] => t.line
  | .punct c true _ :: rest => c.toString ++ lineOf rest
  | t :: rest => t.line ++ " " ++ lineOf rest

end

/-- The number of tokens of a sequence. -/
def tokenCount (ts : List TokenTree) : Nat := TokenTree.size.sizeAll ts

/-- The place of the first token. -/
def startOf (ts : List TokenTree) : Pos := (ts.head?.map TokenTree.start).getD Pos.none

/-- The place of the last token, or of its closing bracket. -/
def finishOf (ts : List TokenTree) : Pos := (ts.getLast?.map TokenTree.finish).getD Pos.none

/-- The characters of an operator as tokens: joined to each other, and apart from what follows. -/
def operatorTokens (pos : Pos) : List Char → List TokenTree
  | [] => []
  | [c] => [.punct c false pos]
  | c :: d :: cs => .punct c true pos :: operatorTokens pos (d :: cs)

end CallProbe.Source
