/-! # Data

The values that a manifest denotes, whatever their spelling. -/

namespace CallProbe.Manifest

/-- A value of a manifest. -/
inductive Data where
  | text (s : String)
  | truth (b : Bool)
  /-- A number or a date, as it is written. -/
  | scalar (written : String)
  | array (items : List Data)
  | table (entries : List (String × Data))
  /-- Tables under one name, in their order. -/
  | tables (items : List Data)
deriving Inhabited, Repr

namespace Data

/-- The value under a key of a table. -/
def get? (d : Data) (key : String) : Option Data :=
  match d with
  | table entries => entries.lookup key
  | _ => none

/-- The text that a value is. -/
def text? : Data → Option String
  | text s => some s
  | _ => none

/-- The truth value that a value is. -/
def truth? : Data → Option Bool
  | truth b => some b
  | _ => none

/-- The texts among the items of an array. -/
def texts? : Data → Option (List String)
  | array items => some (items.filterMap text?)
  | _ => none

/-- The tables under one name. -/
def tables? : Data → Option (List Data)
  | tables items => some items
  | _ => none

end Data

end CallProbe.Manifest
