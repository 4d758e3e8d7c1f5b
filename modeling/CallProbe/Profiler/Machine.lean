import CallProbe.Profiler.Report

/-! # The profiler

Every run of a profiled function has a recorder of its own. A recorder is on the stack of a thread exactly
while the code of its run is executed there: from start to end for a plain function, during each poll for an
asynchronous one. A timer belongs to the recorder on top of the stack of its thread, so runs that recur or
are interleaved never share records. -/

namespace CallProbe.Profiler

open Call Time

/-- The settings of a profiled function: its limit, and which outcomes are reported. -/
structure Profile where
  function : String
  limit : Duration
  below : Bool
  above : Bool
deriving DecidableEq, Repr

/-- Whether an outcome is reported. -/
def Profile.reports (p : Profile) : Outcome → Bool
  | .below => p.below
  | .above => p.above

/-- The records of one run. -/
structure Recorder where
  /-- The calls that ended, in that order. -/
  calls : List Record := []
  /-- The nested time of each open timer, the newest first. -/
  pending : List Duration := []
  /-- Whether the run is over. -/
  closed : Bool := false
deriving DecidableEq, Repr

namespace Recorder

/-- Adds to the nested time of the newest open timer. -/
def addNested (d : Duration) : List Duration → List Duration
  | [] => []
  | outer :: rest => ⟨outer.nanos + d.nanos⟩ :: rest

/-- What the end of a timer does to its recorder: the newest nested time is taken for its own, its time is
    added to the next one, and the call is recorded unless the run is over. -/
def finish (rec : Recorder) (origin : Origin) (elapsed : Duration) : Recorder :=
  let nested := rec.pending.head?.getD .zero
  { rec with
    pending := addNested elapsed rec.pending.tail
    calls := if rec.closed then rec.calls else rec.calls ++ [⟨origin, elapsed, nested⟩] }

end Recorder

abbrev RecorderId := Nat

abbrev ThreadId := Nat

/-- The recorders made so far, and for each thread those that are entered on it, the latest first. -/
structure Machine where
  recorders : List Recorder := []
  active : ThreadId → List RecorderId := fun _ => []

/-- A run of a profiled function that is not over. -/
structure Invocation where
  profile : Profile
  start : Duration
  recorder : RecorderId
  /-- Whether the recorder was entered when the run was started. -/
  entered : Bool
deriving DecidableEq, Repr

/-- A call that is being timed. A call outside of every run is timed by a timer without a recorder. -/
structure Timer where
  origin : Origin
  recorder : Option RecorderId
  start : Duration
deriving DecidableEq, Repr

namespace Machine

/-- Replaces the stack of a thread. -/
def setActive (m : Machine) (t : ThreadId) (stack : List RecorderId) : Machine :=
  { m with active := fun u => if u = t then stack else m.active u }

/-- Enters a recorder on a thread. -/
def enter (m : Machine) (t : ThreadId) (r : RecorderId) : Machine := m.setActive t (r :: m.active t)

/-- Undoes the latest entry of a recorder on a thread. Without one, nothing happens. -/
def exit (m : Machine) (t : ThreadId) (r : RecorderId) : Machine := m.setActive t ((m.active t).erase r)

/-- Opens a run with a new recorder, which is not entered. -/
def newInvocation (m : Machine) (p : Profile) (now : Duration) : Machine × Invocation :=
  ({ m with recorders := m.recorders ++ [{}] }, ⟨p, now, m.recorders.length, false⟩)

/-- Opens a run and enters its recorder on a thread until it is over. -/
def startInvocation (m : Machine) (t : ThreadId) (p : Profile) (now : Duration) : Machine × Invocation :=
  let (m, i) := m.newInvocation p now
  (m.enter t i.recorder, { i with entered := true })

/-- Starts a timer for the recorder on top of the stack of a thread. -/
def startTimer (m : Machine) (t : ThreadId) (origin : Origin) (now : Duration) : Machine × Timer :=
  match (m.active t).head? with
  | none => (m, ⟨origin, none, now⟩)
  | some r =>
    ({ m with recorders := m.recorders.modify r fun rec => { rec with pending := .zero :: rec.pending } },
      ⟨origin, some r, now⟩)

/-- Ends a timer. -/
def stopTimer (m : Machine) (timer : Timer) (now : Duration) : Machine :=
  match timer.recorder with
  | none => m
  | some r =>
    { m with recorders := m.recorders.modify r fun rec => rec.finish timer.origin (now.sub timer.start) }

/-- Ends a run on a thread. Its records are taken, so that timers that end later are not recorded. -/
def stopInvocation (m : Machine) (t : ThreadId) (i : Invocation) (now : Duration) : Machine × Report :=
  let total := now.sub i.start
  let calls := (m.recorders[i.recorder]?.map (·.calls)).getD []
  let m := { m with recorders := m.recorders.modify i.recorder fun rec => { rec with calls := [], closed := true } }
  (if i.entered then m.exit t i.recorder else m,
    { function := i.profile.function, total, limit := i.profile.limit,
      outcome := Outcome.of total i.profile.limit, calls })

end Machine

end CallProbe.Profiler
