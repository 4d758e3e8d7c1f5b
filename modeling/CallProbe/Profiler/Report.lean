import CallProbe.Call.Origin
import CallProbe.Time.Duration

/-! # Reports

What is told about one finished run of a profiled function: how long it took against its limit, and the
calls it made. The time of a call is counted without that of the timed calls inside it. -/

namespace CallProbe.Profiler

open Call Time

/-- One timed call. -/
structure Record where
  origin : Origin
  /-- The time from the start of the call expression to its end. -/
  elapsed : Duration
  /-- The time in timed calls inside this one. -/
  nested : Duration
deriving DecidableEq, Repr

/-- The name of the call. -/
def Record.name (r : Record) : String := r.origin.name

/-- The time of the call itself. -/
def Record.own (r : Record) : Duration := r.elapsed.sub r.nested

/-- Whether a run took less than its limit. -/
inductive Outcome where
  | below
  | above
deriving DecidableEq, Repr

def Outcome.text : Outcome → String
  | below => "below"
  | above => "above"

/-- The outcome of a run. One that takes exactly its limit is above it. -/
def Outcome.of (total limit : Duration) : Outcome := if total.nanos < limit.nanos then .below else .above

/-- What is told about one finished run of a function. -/
structure Report where
  function : String
  total : Duration
  limit : Duration
  outcome : Outcome
  /-- The calls, in the order in which they ended. -/
  calls : List Record
deriving DecidableEq, Repr

/-- Adds to the sum of a name, which starts a new one at the end if it has none. A sum that is no duration
    is no result. -/
def addTo (name : String) (d : Duration) : List (String × Duration) → Option (List (String × Duration))
  | [] => some [(name, d)]
  | (n, sum) :: rest =>
    if n = name then (sum.add? d).map fun s => (n, s) :: rest
    else (addTo name d rest).map ((n, sum) :: ·)

/-- The own time of calls summed by name, names in the order in which they first occur. -/
def sums (calls : List Record) : Option (List (String × Duration)) :=
  calls.foldlM (fun sums r => addTo r.name r.own sums) []

/-- The own time of the calls summed by name, longest first. Of equal sums, the name that occurs first comes
    first. -/
def Report.summarize (r : Report) : Option (List (String × Duration)) :=
  (sums r.calls).map fun sums => sums.mergeSort fun a b => decide (b.2.nanos ≤ a.2.nanos)

/-! ### Logging -/

/-- A line of a log: its text, and named values. -/
structure LogLine where
  message : String
  fields : List (String × String)
deriving DecidableEq, Repr

/-- The line about the total time. -/
def Report.totalLine (r : Report) (side : Outcome) : LogLine :=
  { message := r.function ++ " finished in " ++ r.total.text ++ ", " ++ side.text ++ " limit of " ++ r.limit.text,
    fields := [("function", r.function), ("total", r.total.text), ("limit", r.limit.text)] }

/-- What is logged about a run below its limit: the total time. -/
def Report.logBelow (r : Report) : List LogLine := [r.totalLine .below]

/-- What is logged about a run above its limit: the total time, and the time of each call name. -/
def Report.logAbove (r : Report) : Option (List LogLine) :=
  r.summarize.map fun sums => r.totalLine .above :: sums.map fun (name, d) =>
    { message := "  " ++ name ++ ": " ++ d.text,
      fields := [("function", r.function), ("call", name), ("duration", d.text)] }

end CallProbe.Profiler
