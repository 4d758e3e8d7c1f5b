import CallProbe.CommandLine.Help

/-! # Requests

What the arguments of the program ask for: a command, a text, or nothing that makes sense. -/

namespace CallProbe.CommandLine

/-- What is asked for. -/
inductive Request where
  | command (command : Command)
  /-- A text to print. -/
  | text (content : String)
  /-- The arguments do not make sense. -/
  | usage

/-- What the outcome of reading the arguments of a command asks for. -/
def Request.of (spec : CommandSpec) : Except Stop Command → Request
  | .ok c => .command c
  | .error .help => .text spec.help
  | .error .usage => .usage

/-- The help text of a command that is named. -/
def helpOn : List String → Request
  | [] => .text programHelp
  | [name] =>
    match commandSpecs.find? (·.name == name) with
    | some c => .text c.help
    | none => .usage
  | _ => .usage

/-- Reads arguments from the name of a command on. -/
def Request.ofCommand (name : String) (args : List String) : Request :=
  if name = "expand" then .of expandSpec (readExpand args)
  else if name = "build" then .of buildSpec (readBuild args)
  else if name = "run" then .of runSpec (readRun args)
  else if name = "help" then helpOn args
  else .usage

/-- Reads the arguments of the program. The flag of every command may stand before the command, once. -/
def Request.parse : Bool → List String → Request
  | _, [] => .usage
  | debug, a :: rest =>
    if a = "--debug" then if debug then .usage else Request.parse true rest
    else if a = "--help" || a.startsWith "-h" then .text programHelp
    else if a = "--version" || a.startsWith "-V" then .text (programName ++ " " ++ version ++ "\n")
    else Request.ofCommand a rest

end CallProbe.CommandLine
