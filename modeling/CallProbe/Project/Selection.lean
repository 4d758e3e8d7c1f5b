import CallProbe.Files.Path

/-! # Selections

Selections add functions to the marked ones: by a part of their name, by their file, or by their module. -/

namespace CallProbe.Project

open Files

/-- A selection of functions. -/
inductive Selection where
  /-- Functions whose name, after any type, contains the text. -/
  | byName (part : String)
  /-- All functions in files whose path ends with the path. -/
  | byFile (path : String)
  /-- All functions in files of the name, or directly in a directory of the name. -/
  | byModule (name : String)
deriving DecidableEq, Repr

namespace Selection

/-- Whether a function in a file is selected. -/
def selects (s : Selection) (file function : String) : Bool :=
  match s with
  | byName part => Text.contains part (Text.afterLast "::" function)
  | byFile path => Path.endsWith file path
  | byModule name => Path.parentName? file == some name || Path.stem? file == some name

/-- The option that makes a selection. -/
def text : Selection → String
  | byName part => "--fn " ++ part
  | byFile path => "--file " ++ path
  | byModule name => "--mod " ++ name

/-- The options that make selections. -/
def describe (ss : List Selection) : String := Text.joinWith ", " (ss.map text)

end Selection

end CallProbe.Project
