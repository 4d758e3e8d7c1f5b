/-! # Origins

What a running program knows about a probed call: the call's name, and where it stands. -/

namespace CallProbe.Call

/-- A probed call as it stands in a file. -/
structure Origin where
  name : String
  /-- The function that makes the call. -/
  function : String
  file : String
  line : UInt32
  endLine : UInt32
  column : UInt32
  /-- The text of the call on one line. -/
  snippet : String
deriving DecidableEq, Repr

/-- A call with its place, for people. -/
def Origin.text (o : Origin) : String :=
  o.name ++ " (" ++ o.file ++ ":" ++ toString o.line.toNat ++ ":" ++ toString o.column.toNat ++ ") `" ++ o.snippet ++ "`"

end CallProbe.Call
