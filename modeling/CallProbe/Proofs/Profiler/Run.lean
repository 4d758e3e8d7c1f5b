import CallProbe.Profiler.Machine

/-! # Runs of the profiler

A run is any sequence of the things a program can do with the profiler, on any threads: open an invocation and drop
it, poll the future of a scope, start a timer and drop it. Things are known by the order in which they were made, the
first of their kind being number zero; a step that names nothing alive does nothing. What happened is kept, newest
first, so that a later state can be held against the past and not against the state before it.

`step_moves` says once what a step can do, in moves that change one thing each. -/

namespace CallProbe.Profiler

open Call Time

/-- What happened. Recorders are known by the number of their invocation. -/
inductive Event where
  | opened (invocation : Nat) (profile : Profile) (start : Duration)
  | entered (thread : ThreadId) (recorder : RecorderId)
  | exited (thread : ThreadId) (recorder : RecorderId)
  | created (timer : Nat) (thread : ThreadId) (origin : Origin) (start : Duration)
  /-- A timer was dropped; the record is the one to be kept if there is an invocation to keep it. -/
  | dropped (timer : Nat) (now : Duration) (record : Record)
  /-- An invocation was dropped, with its report and the callback that was told. -/
  | ended (invocation : Nat) (now : Duration) (report : Report) (told : Option Outcome)

/-- A machine with all that was made on it, what is gone left out, and the past, newest first. -/
structure System where
  machine : Machine := {}
  invocations : List (Option Invocation) := []
  /-- The recorders of the futures made by `scope`. -/
  scopes : List RecorderId := []
  /-- The polls that have not ended, with their threads. -/
  polls : List (Option (ThreadId × RecorderId)) := []
  timers : List (Option Timer) := []
  past : List Event := []

/-- What a program can do. -/
inductive Step where
  | new (profile : Profile) (now : Duration)
  | start (thread : ThreadId) (profile : Profile) (now : Duration)
  | drop (thread : ThreadId) (invocation : Nat) (now : Duration)
  | scope (invocation : Nat)
  | beginPoll (thread : ThreadId) (scope : Nat)
  /-- The end of a poll, by a result or by a panic. -/
  | endPoll (poll : Nat)
  | time (thread : ThreadId) (origin : Origin) (now : Duration)
  | dropTimer (timer : Nat) (now : Duration)

/-- The callback that is told about a report, if the profile has it. -/
def Profile.told (p : Profile) (r : Report) : Option Outcome := if p.reports r.outcome then some r.outcome else none

/-- The record that the end of a timer makes. -/
def Machine.recordOf (m : Machine) (timer : Timer) (now : Duration) : Record :=
  let pending := (timer.recorder.bind fun r => m.recorders[r]?.map (·.pending)).getD []
  ⟨timer.origin, now.sub timer.start, pending.head?.getD .zero⟩

/-- A machine that keeps no more records of an invocation. -/
def Machine.close (m : Machine) (inv : Invocation) : Machine :=
  { m with recorders := m.recorders.modify inv.recorder fun rec => { rec with calls := [], closed := true } }

/-- What is told about an invocation that is dropped. -/
def Machine.reportOf (m : Machine) (inv : Invocation) (now : Duration) : Report :=
  { function := inv.profile.function, total := now.sub inv.start, limit := inv.profile.limit
    outcome := Outcome.of (now.sub inv.start) inv.profile.limit
    calls := (m.recorders[inv.recorder]?.map (·.calls)).getD [] }

theorem Machine.stopInvocation_eq (m : Machine) (t : ThreadId) (inv : Invocation) (now : Duration) :
    m.stopInvocation t inv now =
      (if inv.entered then (m.close inv).exit t inv.recorder else m.close inv, m.reportOf inv now) := rfl

/-! ### The past -/

/-- The recorders that are entered on a thread and not exited, the latest first. An exit undoes the latest entry of
    its recorder. -/
def enteredOn (t : ThreadId) : List Event → List RecorderId
  | [] => []
  | .entered u r :: past => if u = t then r :: enteredOn t past else enteredOn t past
  | .exited u r :: past => if u = t then (enteredOn t past).erase r else enteredOn t past
  | _ :: past => enteredOn t past

/-- The recorder that was entered latest, and not exited, on the thread of a timer when the timer was created. -/
def ownerOf (k : Nat) : List Event → Option RecorderId
  | [] => none
  | .created j t _ _ :: past => if j = k then (enteredOn t past).head? else ownerOf k past
  | _ :: past => ownerOf k past

structure Drop where
  timer : Nat
  owner : Option RecorderId
  record : Record

def dropsIn : List Event → List Drop
  | [] => []
  | .dropped k _ record :: past => dropsIn past ++ [⟨k, ownerOf k past, record⟩]
  | _ :: past => dropsIn past

/-- The records of the timers that belong to an invocation, in the order of their drops. -/
def recordsOf (i : Nat) (past : List Event) : List Record :=
  ((dropsIn past).filter fun d => d.owner = some i).map Drop.record

namespace System

/-- One step of a run. -/
def step (s : System) : Step → System
  | .new p now =>
    let (m, inv) := s.machine.newInvocation p now
    { s with machine := m, invocations := s.invocations ++ [some inv]
             past := .opened s.invocations.length p now :: s.past }
  | .start t p now =>
    let (m, inv) := s.machine.startInvocation t p now
    { s with machine := m, invocations := s.invocations ++ [some inv]
             past := .entered t inv.recorder :: .opened s.invocations.length p now :: s.past }
  | .drop t i now =>
    match s.invocations[i]? with
    | some (some inv) =>
      let (m, report) := s.machine.stopInvocation t inv now
      let past := .ended i now report (inv.profile.told report) :: s.past
      { s with machine := m, invocations := s.invocations.set i none
               past := if inv.entered then .exited t inv.recorder :: past else past }
    | _ => s
  | .scope i =>
    match s.invocations[i]? with
    | some (some inv) => { s with scopes := s.scopes ++ [inv.recorder] }
    | _ => s
  | .beginPoll t k =>
    match s.scopes[k]? with
    | some r =>
      { s with machine := s.machine.enter t r, polls := s.polls ++ [some (t, r)], past := .entered t r :: s.past }
    | none => s
  | .endPoll k =>
    match s.polls[k]? with
    | some (some (t, r)) =>
      { s with machine := s.machine.exit t r, polls := s.polls.set k none, past := .exited t r :: s.past }
    | _ => s
  | .time t origin now =>
    let (m, timer) := s.machine.startTimer t origin now
    { s with machine := m, timers := s.timers ++ [some timer]
             past := .created s.timers.length t origin now :: s.past }
  | .dropTimer k now =>
    match s.timers[k]? with
    | some (some timer) =>
      { s with machine := s.machine.stopTimer timer now, timers := s.timers.set k none
               past := .dropped k now (s.machine.recordOf timer now) :: s.past }
    | _ => s

def run (steps : List Step) : System := steps.foldl step {}

/-! ### What a step tells -/

/-- What a step adds to the past. An invocation or a timer that is dropped while it is alive is told of once, with its report
    and the callback of its profile or with its record; what is not alive tells nothing. -/
structure Tells (s : System) (a : Step) (news : List Event) : Prop where
  opened : ∀ i p now, .opened i p now ∈ news ↔ i = s.invocations.length ∧ (a = .new p now ∨ ∃ t, a = .start t p now)
  entered : ∀ t r, .entered t r ∈ news ↔ (r = s.machine.recorders.length ∧ ∃ p now, a = .start t p now) ∨
    ∃ k, a = .beginPoll t k ∧ s.scopes[k]? = some r
  exited : ∀ t r, .exited t r ∈ news ↔
    (∃ i now inv, a = .drop t i now ∧ s.invocations[i]? = some (some inv) ∧ inv.entered = true ∧ r = inv.recorder) ∨
    ∃ k, a = .endPoll k ∧ s.polls[k]? = some (some (t, r))
  created : ∀ k t origin now, .created k t origin now ∈ news ↔ k = s.timers.length ∧ a = .time t origin now
  dropped : ∀ k now record, .dropped k now record ∈ news ↔
    a = .dropTimer k now ∧ ∃ timer, s.timers[k]? = some (some timer) ∧ record = s.machine.recordOf timer now
  ended : ∀ i now report told, .ended i now report told ∈ news ↔ ∃ t inv, a = .drop t i now ∧
    s.invocations[i]? = some (some inv) ∧ report = (s.machine.stopInvocation t inv now).2 ∧ told = inv.profile.told report
  nodup : news.Nodup

/-- A step adds to the past what it tells, and nothing else. -/
theorem step_tells (s : System) (a : Step) : ∃ news, (s.step a).past = news ++ s.past ∧ Tells s a news := by
  cases a with
  | new p now =>
    refine ⟨[.opened s.invocations.length p now], rfl, ?_⟩
    constructor <;> simp <;> grind
  | start t p now =>
    refine ⟨[.entered t s.machine.recorders.length, .opened s.invocations.length p now], rfl, ?_⟩
    constructor <;> simp <;> grind
  | drop t i now =>
    simp only [step]
    split
    · rename_i inv hinv
      rw [Machine.stopInvocation_eq]
      -- An invocation that was entered by its start is exited after its end.
      cases hentered : inv.entered with
      | true =>
        refine ⟨[.exited t inv.recorder, .ended i now _ _], rfl, ?_⟩
        constructor <;> simp [Machine.stopInvocation_eq] <;> grind
      | false =>
        refine ⟨[.ended i now _ _], rfl, ?_⟩
        constructor <;> simp [Machine.stopInvocation_eq] <;> grind
    · refine ⟨[], rfl, ?_⟩
      constructor <;> simp <;> grind
  | scope i =>
    refine ⟨[], by simp only [step]; split <;> rfl, ?_⟩
    constructor <;> simp
  | beginPoll t k =>
    simp only [step]
    split
    · rename_i r hr
      refine ⟨[.entered t r], rfl, ?_⟩
      constructor <;> simp <;> grind
    · refine ⟨[], rfl, ?_⟩
      constructor <;> simp <;> grind
  | endPoll k =>
    simp only [step]
    split
    · rename_i t r hpoll
      refine ⟨[.exited t r], rfl, ?_⟩
      constructor <;> simp <;> grind
    · refine ⟨[], rfl, ?_⟩
      constructor <;> simp <;> grind
  | time t origin now =>
    refine ⟨[.created s.timers.length t origin now], rfl, ?_⟩
    constructor <;> simp <;> grind
  | dropTimer k now =>
    simp only [step]
    split
    · rename_i timer htimer
      refine ⟨[.dropped k now (s.machine.recordOf timer now)], rfl, ?_⟩
      constructor <;> simp <;> grind
    · refine ⟨[], rfl, ?_⟩
      constructor <;> simp <;> grind

/-! ### Moves -/

/-- What can happen at once. -/
inductive Move : System → System → Prop where
  | book (s : System) (scopes : List RecorderId) (polls : List (Option (ThreadId × RecorderId)))
    (known : ∀ r ∈ scopes, r ∈ s.scopes ∨
      ∃ (i : Nat) (inv : Invocation), s.invocations[i]? = some (some inv) ∧ inv.recorder = r) :
    Move s { s with scopes, polls }
  | opened (s : System) (p : Profile) (now : Duration) (entered : Bool) :
    Move s { s with machine := (s.machine.newInvocation p now).1
                    invocations := s.invocations ++ [some ⟨p, now, s.machine.recorders.length, entered⟩]
                    past := .opened s.invocations.length p now :: s.past }
  | entered (s : System) (t : ThreadId) {r : RecorderId} (known : r ∈ s.scopes ∨ r < s.machine.recorders.length) :
    Move s { s with machine := s.machine.enter t r, past := .entered t r :: s.past }
  | exited (s : System) (t : ThreadId) (r : RecorderId) :
    Move s { s with machine := s.machine.exit t r, past := .exited t r :: s.past }
  | created (s : System) (t : ThreadId) (origin : Origin) (now : Duration) :
    Move s { s with machine := (s.machine.startTimer t origin now).1
                    timers := s.timers ++ [some (s.machine.startTimer t origin now).2]
                    past := .created s.timers.length t origin now :: s.past }
  | dropped (s : System) {k : Nat} {timer : Timer} (now : Duration) (alive : s.timers[k]? = some (some timer)) :
    Move s { s with machine := s.machine.stopTimer timer now, timers := s.timers.set k none
                    past := .dropped k now (s.machine.recordOf timer now) :: s.past }
  | ended (s : System) {i : Nat} {inv : Invocation} (now : Duration) (alive : s.invocations[i]? = some (some inv)) :
    Move s { s with machine := s.machine.close inv, invocations := s.invocations.set i none
                    past := .ended i now (s.machine.reportOf inv now) (inv.profile.told (s.machine.reportOf inv now)) :: s.past }

/-- What holds after every move holds after every step. -/
theorem step_moves {motive : System → Prop} (move : ∀ s s', Move s s' → motive s → motive s') (s : System)
    (a : Step) (h : motive s) : motive (s.step a) := by
  cases a with
  | new p now => exact move _ _ (.opened s p now false) h
  | start t p now =>
    have hopened := move _ _ (.opened s p now true) h
    exact move _ _ (.entered _ t (.inr (by simp [Machine.newInvocation]))) hopened
  | drop t i now =>
    simp only [step]
    split
    · -- An invocation that was entered by its start is exited on the thread that drops it.
      rename_i inv hinv
      have hended := move _ _ (.ended s now hinv) h
      rw [Machine.stopInvocation_eq]
      cases he : inv.entered with
      | true => exact move _ _ (.exited _ t inv.recorder) hended
      | false => exact hended
    · exact h
  | scope i =>
    simp only [step]
    split
    · rename_i inv hinv
      refine move _ _ (.book s (s.scopes ++ [inv.recorder]) s.polls fun r hr => ?_) h
      rw [List.mem_append, List.mem_singleton] at hr
      exact hr.imp_right fun he => ⟨i, inv, hinv, he.symm⟩
    · exact h
  | beginPoll t k =>
    simp only [step]
    split
    · -- A poll enters the recorder of its scope and is then booked.
      rename_i r hr
      have hentered := move _ _ (.entered s t (.inl (List.mem_of_getElem? hr))) h
      let s' := { s with machine := s.machine.enter t r, past := .entered t r :: s.past }
      exact move s' _ (.book s' s.scopes _ fun r hr => .inl hr) hentered
    · exact h
  | endPoll k =>
    simp only [step]
    split
    · rename_i t r _
      let s' := { s with machine := s.machine.exit t r, past := .exited t r :: s.past }
      exact move s' _ (.book s' s.scopes _ fun r hr => .inl hr) (move _ _ (.exited s t r) h)
    · exact h
  | time t origin now => exact move _ _ (.created s t origin now) h
  | dropTimer k now =>
    simp only [step]
    split
    · rename_i timer htimer
      exact move _ _ (.dropped s now htimer) h
    · exact h

/-- What holds at first and after every move holds of every run. -/
theorem run_moves {motive : System → Prop} (first : motive {}) (move : ∀ s s', Move s s' → motive s → motive s')
    (steps : List Step) : motive (run steps) := by
  have hrun : ∀ s, motive s → motive (steps.foldl step s) := by
    induction steps with
    | nil => exact fun s h => h
    | cons a steps ih => exact fun s h => ih _ (step_moves move s a h)
  exact hrun {} first

end System

end CallProbe.Profiler
