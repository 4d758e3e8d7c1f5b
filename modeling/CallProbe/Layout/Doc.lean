/-! # Line breaking

A text is laid out from a sequence of words, boxes and gaps. A box that does not fit into the rest of its
line is broken: in a uniform box every gap then ends a line, in a filled one only a gap after which the
next stretch does not fit. Lines are 89 characters long, but a stretch that starts far to the right
still has room for 60. Widths are counted in bytes.

`settle` removes boxes and gaps with nothing in them, `measure` finds the widths that decide what fits,
and `render` writes the text in one pass. A gap that is removed because nothing follows it still ends the
stretch before it, so a closing brace right after it need not fit. A part that has no layout leaves a mark in
its place, and then there is no text. -/

namespace CallProbe.Layout

/-- The length of a line. -/
def margin : Int := 89

/-- The room that a line has at least. -/
def minRoom : Int := 60

/-- The width of a gap that always ends a line. -/
def infinite : Nat := 65535

/-- A place where a line may end. -/
structure Gap where
  /-- Added to the indentation of the next line. -/
  offset : Int := 0
  /-- Spaces if the line does not end here. -/
  blank : Nat := 0
  /-- Written before the line ends. -/
  before : String := ""
  /-- Written at the start of the next line. -/
  after : String := ""
  /-- Written if the line does not end here. -/
  inline : String := ""
  /-- Dropped at the end of a box. -/
  ifFollowed : Bool := false
  /-- The line never ends here. -/
  rigid : Bool := false
deriving Inhabited

/-- A part that has no layout. -/
inductive Unprintable where
  /-- Tokens that are only passed through, and what they stand in the place of. -/
  | passedThrough (place text : String)
  /-- The rules of a macro. -/
  | rules
deriving DecidableEq, Repr

/-- What is said about a part that has no layout. -/
def Unprintable.message : Unprintable → String
  | passedThrough place text => "not implemented: " ++ place ++ "::Verbatim `" ++ text ++ "`"
  | rules => "not implemented: bad macro_rules syntax"

/-- What a layout is described with. -/
inductive Op where
  | word (text : String)
  | gap (gap : Gap)
  /-- Starts a box; lines in it are indented by `offset`. -/
  | box (offset : Int) (uniform : Bool)
  | close
  /-- Ends a box, which is broken if it is wider than `limit`, even if nothing follows its last gap. -/
  | closeWithin (limit : Nat)
  /-- Changes the offset of the gap just before. -/
  | shift (by_ : Int)
  /-- A space if the word just before ends with a dot. -/
  | spaceAfterDot
  /-- A gap in front of a dot, which is a space after another dot if the line goes on. -/
  | gapBeforeDot
  /-- The place of a part that has no layout. -/
  | missing (part : Unprintable)

/-- A part of a layout after `settle`. A word has a width of its own. -/
inductive Piece where
  | word (text : String) (width : Nat)
  | gap (gap : Gap)
  | box (offset : Int) (uniform : Bool)
  | close
  /-- Where a gap was dropped: what stands before it is measured up to here. -/
  | edge
  /-- The last gap of a box that is wider than its limit, with nothing after it. It is dropped after all if what
      stands before it in the box has no room. -/
  | lastGap (gap : Gap)

/-- The width of a piece if no line ends in it. -/
def Piece.width : Piece → Nat
  | word _ w => w
  | gap g | lastGap g => g.blank
  | _ => 0

/-- The width from the innermost box that is open, given the pieces so far, last one first. -/
def widthOfBox : Nat → List Piece → Nat
  | _, [] => 0
  | depth, p :: ps =>
    match p with
    | .box _ _ => match depth with
      | 0 => 0
      | depth + 1 => widthOfBox depth ps
    | .close => widthOfBox (depth + 1) ps
    | _ => p.width + widthOfBox depth ps

/-- Ends a box, given the pieces so far, last one first: a gap alone in its box goes with the box, and a gap
    that is dropped at the end leaves an edge. -/
def closeBox : List Piece → List Piece
  | .gap _ :: .box _ _ :: ps => ps
  | .gap g :: ps => .close :: (if g.ifFollowed then .edge else .gap g) :: ps
  | ps => .close :: ps

/-- Ends a box that is wider than its limit, given the pieces so far, last one first: a word of no letters and
    endless width keeps it and all around it from fitting. -/
def closeWide (ps : List Piece) : List Piece :=
  let ps := match ps with
    | .gap g :: rest => (if g.ifFollowed then .lastGap g else .gap g) :: rest
    | ps => ps
  .close :: .word "" infinite :: ps

/-- Whether the last word, in pieces given last one first, ends with a dot. -/
def endsInDot : List Piece → Bool
  | [] => false
  | .word t _ :: _ => t.toList.getLast? == some '.'
  | _ :: ps => endsInDot ps

/-- The pieces after one more instruction, last one first. -/
def settleStep (ps : List Piece) : Op → List Piece
  | .word t => .word t t.utf8ByteSize :: ps
  | .gap g => .gap g :: ps
  | .box o u => .box o u :: ps
  | .close => closeBox ps
  | .closeWithin limit => if limit < widthOfBox 0 ps then closeWide ps else closeBox ps
  | .shift d => match ps with
    | .gap g :: rest => .gap { g with offset := g.offset + d } :: rest
    | ps => ps
  | .spaceAfterDot => if endsInDot ps then .word " " 1 :: ps else ps
  | .gapBeforeDot => .gap { inline := if endsInDot ps then " " else "" } :: ps
  | .missing _ => ps

/-- The pieces of a layout, last one first. -/
def settle (ops : List Op) : List Piece := ops.foldl settleStep []

/-- Pieces with their sizes: the width of a box or gap up to the next gap around it. Takes the pieces last
    one first; `room` is the width from here to the end, and `near` holds, for each box around, the width
    from the nearest gap to the end. -/
def measureFrom (room : Nat) (near : List Nat) (done : List (Piece × Nat)) : List Piece → List (Piece × Nat)
  | [] => done
  | p :: ps =>
    match p with
    | .word _ w => measureFrom (room + w) near ((p, w) :: done) ps
    | .gap g | .lastGap g =>
      let room' := room + g.blank
      measureFrom room' (room' :: near.drop 1) ((p, room' - near.headD 0) :: done) ps
    | .close => measureFrom room (near.headD 0 :: near) ((p, 0) :: done) ps
    | .edge => measureFrom room (room :: near.drop 1) ((p, 0) :: done) ps
    | .box _ _ =>
      let outer := near.drop 1
      measureFrom room outer ((p, room - outer.headD 0) :: done) ps

/-- Pieces with their sizes, in order. -/
def measure (ps : List Piece) : List (Piece × Nat) := measureFrom 0 [0] [] ps

/-- A box that is being printed. -/
inductive Frame where
  | fits
  /-- Broken, with the indentation outside and what `far` was at its start. -/
  | broken (indent : Int) (uniform : Bool) (far : Int)

/-- The state of printing: the text so far, the room on the line, the indentation, and the spaces to write
    before the next word. To tell whether a text has outgrown its line before its end is known, places are also
    counted along the text as if no line ended: `flat` is the place here, and `far` the last place that would be
    on the line of one of the boxes and gaps whose stretch is not over. -/
structure Line where
  text : String := ""
  room : Int := margin
  indent : Int := 0
  pending : Nat := 0
  frames : List Frame := []
  flat : Nat := 0
  far : Int := 0

/-- `n` spaces. -/
def spaces (n : Nat) : String := String.ofList (List.replicate n ' ')

namespace Line

/-- Writes a word. -/
def write (l : Line) (s : String) : Line :=
  { l with text := l.text ++ spaces l.pending ++ s, pending := 0, room := l.room - s.utf8ByteSize }

/-- Whether a line goes on at a gap. -/
def goesOn (l : Line) (g : Gap) (size : Nat) : Bool :=
  g.rigid || match l.frames with
    | .fits :: _ => true
    | .broken _ uniform _ :: _ => !uniform && size ≤ l.room
    | [] => size ≤ l.room

/-- What `far` was at the start of the innermost box. -/
def farOfBox (l : Line) : Int :=
  match l.frames with
  | .broken _ _ far :: _ => far
  | .fits :: _ => l.far
  | [] => 0

/-- Goes on over a gap. -/
def across (l : Line) (g : Gap) : Line :=
  { l with
    pending := l.pending + g.blank
    text := l.text ++ g.inline
    room := l.room - g.blank - g.inline.utf8ByteSize }

/-- Ends the line at a gap. -/
def newLine (l : Line) (g : Gap) : Line :=
  let l := if g.before.isEmpty then l else l.write g.before
  let indent := l.indent + g.offset
  let l := { l with text := l.text ++ "\n", pending := indent.toNat, room := max (margin - indent) minRoom }
  if g.after.isEmpty then l else l.write g.after

/-- Prints a gap. -/
def pass (l : Line) (g : Gap) (size : Nat) : Line :=
  let l := { l with far := max l.farOfBox (l.flat + l.room) }
  let l := if l.goesOn g size then l.across g else l.newLine g
  { l with flat := l.flat + g.blank }

/-- Starts a box. -/
def enter (l : Line) (offset : Int) (uniform : Bool) (size : Nat) : Line :=
  let far := max l.far (l.flat + l.room)
  if l.room < size then
    { l with frames := .broken l.indent uniform far :: l.frames, indent := l.indent + offset, far := far }
  else { l with frames := .fits :: l.frames, far := far }

/-- Ends a box. -/
def leave (l : Line) : Line :=
  match l.frames with
  | .broken indent _ _ :: rest => { l with frames := rest, indent := indent }
  | _ :: rest => { l with frames := rest }
  | [] => l

/-- Prints a piece. -/
def step (l : Line) : Piece × Nat → Line
  | (.word t w, _) => { l.write t with flat := l.flat + w }
  | (.gap g, size) => l.pass g size
  | (.lastGap g, size) => if l.flat ≤ l.farOfBox then l.pass g size else l
  | (.box offset uniform, size) => l.enter offset uniform size
  | (.close, _) => l.leave
  | (.edge, _) => { l with far := l.farOfBox }

end Line

/-- Writes the text of a layout. -/
def render (ops : List Op) : String :=
  ((measure (settle ops)).foldl Line.step {}).text

/-- The first part that has no layout. -/
def missing? (ops : List Op) : Option Unprintable :=
  ops.findSome? fun
    | .missing part => some part
    | _ => none

/-- The text of a layout, if all its parts have one. -/
def text (ops : List Op) : Except Unprintable String :=
  match missing? ops with
  | some part => .error part
  | none => .ok (render ops)

/-! ### Building blocks -/

/-- The indentation of a nested part. -/
def tab : Int := 4

abbrev Doc := List Op

def word (s : String) : Doc := [.word s]

def nothing : Doc := []

/-- In the place of tokens that are only passed through. -/
def passedThrough (place text : String) : Doc := [.missing (.passedThrough place text)]

/-- A gap of the given width. -/
def blanks (n : Nat) : Doc := [.gap { blank := n }]

/-- A gap that is nothing if the line goes on. -/
def softBreak : Doc := blanks 0

/-- A gap that is a space if the line goes on. -/
def space : Doc := blanks 1

/-- A gap at which every line ends. -/
def lineBreak : Doc := blanks infinite

/-- The end of a line, unless nothing follows in the box. -/
def lineBreakIfFollowed : Doc := [.gap { blank := infinite, ifFollowed := true }]

/-- A space, unless nothing follows in the box. -/
def spaceIfFollowed : Doc := [.gap { blank := 1, ifFollowed := true }]

/-- A gap at which no line ends. -/
def noBreak : Doc := [.gap { rigid := true }]

/-- After an element of a list: a comma, which the last one has only if a line ends there. -/
def comma (last : Bool) : Doc := if last then [.gap { before := "," }] else word "," ++ space

/-- After an element of a list in braces with spaces inside. -/
def commaOrSpace (last : Bool) : Doc :=
  if last then [.gap { blank := 1, before := "," }] else word "," ++ space

/-- Moves the line after the last gap to the left. -/
def outdent : Doc := [.shift (-tab)]

/-- A box in which either no line ends or one at every gap. -/
def uniformBox (offset : Int) (d : Doc) : Doc := .box offset true :: d ++ [.close]

/-- A box whose lines are filled. -/
def filledBox (offset : Int) (d : Doc) : Doc := .box offset false :: d ++ [.close]

/-- Documents for elements, each told whether it is the first and the last one. -/
def eachFrom {α : Type} (f : Bool → Bool → α → Doc) (first : Bool) : List α → Doc
  | [] => []
  | [a] => f first true a
  | a :: b :: rest => f first false a ++ eachFrom f false (b :: rest)

/-- Documents for elements, each told whether it is the last one. -/
def each {α : Type} (f : Bool → α → Doc) (as : List α) : Doc := eachFrom (fun _ last a => f last a) true as

/-- Documents for elements with something between neighbours. -/
def sepBy {α : Type} (sep : Doc) (f : α → Doc) (as : List α) : Doc :=
  each (fun last a => f a ++ if last then nothing else sep) as

end CallProbe.Layout
