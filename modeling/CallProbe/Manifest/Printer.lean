import CallProbe.Manifest.Document
import CallProbe.Manifest.Quoted

/-! # Writing documents

A document is written section by section, in the order of the headers that were read. A table that was not
read comes after the one visited before it. -/

namespace CallProbe.Manifest

/-! ### Sections -/

/-- A table to be written with its header, under the keys that lead to it. -/
structure Section where
  path : List Key
  head : Head
  inArray : Bool
  entries : List Item

mutual

/-- The sections of an entry, the outer ones first. -/
def Item.sections (path : List Key) (inArray : Bool) : Item → List Section
  | .value _ _ => []
  | .table key head entries =>
    (if head.dotted then [] else [⟨path ++ [key], head, inArray, entries⟩]) ++ sectionsOf (path ++ [key]) false entries
  | .tables _ items => sectionsOf path true items

def sectionsOf (path : List Key) (inArray : Bool) : List Item → List Section
  | [] => []
  | i :: is => i.sections path inArray ++ sectionsOf path inArray is

end

/-- Sections with the positions to sort them by. -/
def positioned : Nat → List Section → List (Nat × Section)
  | _, [] => []
  | last, s :: ss =>
    let here := s.head.position.getD last
    (here, s) :: positioned here ss

/-- The sections of a document in the order in which they are written; the first has no header. -/
def Document.sections (d : Document) : List Section :=
  let root : Section := ⟨[], {}, false, d.entries⟩
  let all := positioned 0 (root :: sectionsOf [] false d.entries)
  (all.mergeSort fun a b => decide (a.1 ≤ b.1)).map (·.2)

/-! ### Text -/

/-- A section; `first` says whether nothing stands before it. -/
def Section.text (s : Section) (first : Bool) : String :=
  let lines := valuesOf [] s.entries
  let header :=
    if s.path.isEmpty || (!s.inArray && s.head.implicit && lines.isEmpty) then ""
    else
      let (opening, close) := if s.inArray then ("[[", "]]") else ("[", "]")
      s.head.margin.before.getD (if first then "" else "\n") ++ opening ++ keyText ("", "") s.path ++ close ++
        s.head.margin.after.getD "" ++ "\n"
  header ++ String.join (lines.map fun (path, v) => entryText path v ++ "\n")

/-- The text of sections. Until one has a line, the next one is the first. -/
def sectionsText : Bool → List Section → String
  | _, [] => ""
  | first, s :: ss =>
    let t := s.text first
    t ++ sectionsText (first && t.isEmpty) ss

/-- The text of a document. -/
def Document.text (d : Document) : String := sectionsText true d.sections ++ d.trailing

/-! ### Values that were not read -/

/-- A text as a value. -/
def Value.ofText (s : String) : Value := ⟨" " ++ quoted s, .text s⟩

/-- How a value is written between braces. -/
def inlineText : Data → String
  | .text s => quoted s
  | .truth b => if b then "true" else "false"
  | .scalar w => w
  | .array items => "[" ++ Text.joinWith ", " (inlineTexts items) ++ "]"
  | .table _ | .tables _ => ""
where
  inlineTexts : List Data → List String
    | [] => []
    | d :: ds => inlineText d :: inlineTexts ds

/-- A table between braces as a value. -/
def Value.ofEntries (entries : List (String × Data)) : Value :=
  ⟨" \x7b " ++ Text.joinWith ", " (entries.map fun (k, d) => k ++ " = " ++ inlineText d) ++ " \x7d", .table entries⟩

end CallProbe.Manifest
