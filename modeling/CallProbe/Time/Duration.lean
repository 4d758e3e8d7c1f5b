/-! # Durations

A duration is a number of nanoseconds whose whole seconds fit 64 bits. -/

namespace CallProbe.Time

/-- Nanoseconds in a second. -/
def second : Nat := 1000000000

/-- The longest duration. -/
def longest : Nat := (Nat.pow 2 64 - 1) * second + (second - 1)

/-- A span of time. -/
structure Duration where
  nanos : Nat
deriving DecidableEq, Repr, Inhabited

namespace Duration

def zero : Duration := ⟨0⟩

/-- The whole seconds. -/
def secs (d : Duration) : Nat := d.nanos / second

/-- The nanoseconds beyond the whole seconds. -/
def subsec (d : Duration) : Nat := d.nanos % second

/-- A duration of seconds and nanoseconds. -/
def ofParts (secs nanos : Nat) : Duration := ⟨secs * second + nanos⟩

/-- The sum, if it is a duration. -/
def add? (a b : Duration) : Option Duration :=
  if a.nanos + b.nanos ≤ longest then some ⟨a.nanos + b.nanos⟩ else none

/-- The difference, or zero if the second duration is longer. -/
def sub (a b : Duration) : Duration := ⟨a.nanos - b.nanos⟩

/-- The digits of a fraction of `width` places, without the zeros at its end. -/
def fraction (width n : Nat) : String :=
  let digits := (toString n).toList
  let padded := List.replicate (width - digits.length) '0' ++ digits
  String.ofList (padded.reverse.dropWhile (· = '0')).reverse

/-- A number with its fraction and a unit. -/
def withUnit (whole width part : Nat) (unit : String) : String :=
  let f := fraction width part
  toString whole ++ (if f.isEmpty then "" else "." ++ f) ++ unit

/-- A duration for people: in the largest unit of which it has at least one. -/
def text (d : Duration) : String :=
  if 0 < d.secs then withUnit d.secs 9 d.subsec "s"
  else if 1000000 ≤ d.subsec then withUnit (d.subsec / 1000000) 6 (d.subsec % 1000000) "ms"
  else if 1000 ≤ d.subsec then withUnit (d.subsec / 1000) 3 (d.subsec % 1000) "µs"
  else toString d.subsec ++ "ns"

end Duration

end CallProbe.Time
