import CallProbe.CommandLine.Command
import CallProbe.Text.Words

/-! # Help texts

What a command is for and which arguments it takes, in columns. -/

namespace CallProbe.CommandLine

/-- The name of the program. -/
def programName : String := "shallow"

/-- Its version, which is also the one of the runtime that probed code needs. -/
def version : String := "0.3.0"

/-- An argument in a help text: how it is written, and what is said about it. -/
structure Row where
  written : String
  about : String

def spaces (n : Nat) : String := String.ofList (List.replicate n ' ')

/-- How wide a help text may be. -/
def helpWidth : Nat := 100

/-- Whether a text beside the widest argument would be too narrow: the arguments take more than two fifths of
    the width and some text does not fit beside them. -/
def Row.needsLines (rows : List Row) (widest : Nat) : Bool :=
  let taken := widest + 12
  2 * helpWidth < 5 * taken && rows.any fun r => helpWidth - taken < r.about.length

/-- Arguments under a heading. -/
def Row.section_ (heading : String) (rows : List Row) : String :=
  let widest := rows.foldl (fun n r => max n r.written.length) 2
  let line (r : Row) : String :=
    if Row.needsLines rows widest then "  " ++ r.written ++ "\n          " ++ r.about
    else "  " ++ r.written ++ spaces (widest + 2 - r.written.length) ++ r.about
  heading ++ ":\n" ++ Text.joinWith "\n" (rows.map line)

/-- A flag in a help text. -/
def Flag.row (f : Flag) : Row where
  written :=
    (match f.letter with
      | some c => "-" ++ String.ofList [c] ++ ", "
      | none => "    ") ++ "--" ++ f.name ++
    (match f.value with
      | some v => " <" ++ v.word ++ ">"
      | none => "")
  about := f.about ++ (match f.value.bind (·.usual) with
    | some v => " [default: " ++ v ++ "]"
    | none => "")

def helpFlag : Flag := { name := "help", letter := some 'h', about := "Print help" }

def versionFlag : Flag := { name := "version", letter := some 'V', about := "Print version" }

/-- How an argument that is no flag is written. -/
def Positional.written (p : Positional) : String :=
  (if p.required then "<" ++ p.word ++ ">" else "[" ++ p.word ++ "]") ++ (if p.many then "..." else "")

/-- How an argument that is no flag is written in the line that shows how to call a command. -/
def Positional.usage (p : Positional) : String :=
  if p.last then "[-- <" ++ p.word ++ ">...]" else p.written

/-- The help text of a command. -/
def CommandSpec.help (c : CommandSpec) : String :=
  let flags := if c.flags.isEmpty then [] else c.flags ++ [helpFlag]
  let usage := ["Usage: " ++ programName, c.name] ++ (if flags.isEmpty then [] else ["[OPTIONS]"]) ++
    (match c.positional with
      | some p => [p.usage]
      | none => [])
  let sections :=
    (match c.positional with
      | some p => [Row.section_ "Arguments" [⟨p.written, p.about⟩]]
      | none => []) ++
    (if flags.isEmpty then [] else [Row.section_ "Options" (flags.map Flag.row)])
  Text.joinWith "\n\n" ([c.about, Text.joinWith " " usage] ++ sections) ++ "\n"

/-- The help text of the program. -/
def programHelp : String :=
  Text.joinWith "\n\n"
    ["Wrap or time the calls made directly inside chosen Rust functions",
     "Usage: " ++ programName ++ " [OPTIONS] <COMMAND>",
     Row.section_ "Commands" (commandSpecs.map fun c => ⟨c.name, c.about⟩),
     Row.section_ "Options" ([debugFlag, helpFlag, versionFlag].map Flag.row),
     "Functions carrying #[wrap_calls] or #[profile] are always rewritten with their own options; " ++
       "--fn/--file/--mod select more functions for the command-line options."] ++ "\n"

end CallProbe.CommandLine
