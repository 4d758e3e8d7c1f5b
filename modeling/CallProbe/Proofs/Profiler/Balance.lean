import CallProbe.Proofs.Profiler.Lifetimes

/-! # Open timers and standing entries

A recorder keeps a time for each of its open timers without knowing them, and a thread keeps a stack of recorders
without knowing who entered them. Both could run dry or pile up. `run_balances` says that neither happens: a recorder
has as many times pending as there are timers alive that hold it, whether its invocation is over or not, and the stack
of a thread is what was entered there and not undone.

For the stack, entries are told apart by their number in the past, since one recorder can be entered many times, also
on one thread, and exits need not come in the order opposite to that of the entries. -/

namespace CallProbe.Profiler

open Call Time

/-! ### Entries that stand -/

/-- The latest entry of a recorder on a thread that is not in `gone`. The number of an event is that of the events
    before it. -/
def latestStanding? (t : ThreadId) (r : RecorderId) (gone : List Nat) : List Event → Option Nat
  | [] => none
  | .entered u q :: past =>
    if u = t ∧ q = r ∧ past.length ∉ gone then some past.length else latestStanding? t r gone past
  | _ :: past => latestStanding? t r gone past

/-- The entries that were undone. An exit undoes the latest entry of its recorder on its thread that is not undone
    yet. -/
def undone : List Event → List Nat
  | [] => []
  | .exited t r :: past => (latestStanding? t r (undone past) past).toList ++ undone past
  | _ :: past => undone past

/-- The recorders of the entries on a thread that are not in `gone`, the latest first. -/
def entriesOn (t : ThreadId) (gone : List Nat) : List Event → List RecorderId
  | [] => []
  | .entered u r :: past => if u = t ∧ past.length ∉ gone then r :: entriesOn t gone past else entriesOn t gone past
  | _ :: past => entriesOn t gone past

/-- The recorders of the entries on a thread that stand, the latest first. -/
def standingOn (t : ThreadId) (past : List Event) : List RecorderId := entriesOn t (undone past) past

section
variable {t u : ThreadId} {r : RecorderId} {gone : List Nat} {past : List Event} {n : Nat}

theorem lt_of_latestStanding? (h : latestStanding? t r gone past = some n) : n < past.length := by
  fun_induction latestStanding? t r gone past with
  | case1 => cases h
  | case2 past u q hfound =>
    cases h
    exact Nat.lt_succ_self _
  | case3 past u q hother ih => exact Nat.lt_succ_of_lt (ih h)
  | case4 e past hother ih => exact Nat.lt_succ_of_lt (ih h)

theorem lt_of_mem_undone (h : n ∈ undone past) : n < past.length := by
  fun_induction undone past with
  | case1 => cases h
  | case2 t r past ih =>
    rcases List.mem_append.mp h with h | h
    · exact Nat.lt_succ_of_lt (lt_of_latestStanding? (Option.mem_toList.mp h))
    · exact Nat.lt_succ_of_lt (ih h)
  | case3 e past hother ih => exact Nat.lt_succ_of_lt (ih h)

theorem entriesOn_later (h : past.length ≤ n) : entriesOn t (n :: gone) past = entriesOn t gone past := by
  induction past with
  | nil => rfl
  | cons e past ih =>
    rw [List.length_cons] at h
    have hrest := ih (by omega)
    cases e with
    | entered u r =>
      have hne : past.length ≠ n := by omega
      simp only [entriesOn, hrest, List.mem_cons, hne, false_or]
    | _ => exact hrest

/-- To undo the latest entry of a recorder on a thread takes its first place from the stack of the thread, and
    nothing from that of another one. -/
theorem entriesOn_latestStanding? : entriesOn u ((latestStanding? t r gone past).toList ++ gone) past =
    if t = u then (entriesOn u gone past).erase r else entriesOn u gone past := by
  induction past with
  | nil => simp [entriesOn]
  | cons e past ih =>
    cases e with
    | entered v q =>
      by_cases hfound : v = t ∧ q = r ∧ past.length ∉ gone
      · -- this is the entry that is undone, so `erase` meets it first
        obtain ⟨rfl, rfl, hstands⟩ := hfound
        have hlatest : latestStanding? v q gone (.entered v q :: past) = some past.length := by
          rw [latestStanding?, if_pos ⟨rfl, rfl, hstands⟩]
        have hrest : entriesOn u (past.length :: gone) past = entriesOn u gone past := entriesOn_later (Nat.le_refl _)
        by_cases hv : v = u
        · subst hv
          simp [hlatest, entriesOn, hstands, hrest]
        · simp [hlatest, entriesOn, hrest, hv]
      · -- the entry that is undone has a smaller number, and this one stays if it stood
        have hlatest : latestStanding? t r gone (.entered v q :: past) = latestStanding? t r gone past := by
          rw [latestStanding?, if_neg hfound]
        have hnew : past.length ∉ (latestStanding? t r gone past).toList := fun hmem =>
          Nat.lt_irrefl _ (lt_of_latestStanding? (Option.mem_toList.mp hmem))
        simp only [hlatest, entriesOn, List.mem_append, hnew, false_or, ih]
        by_cases hv : v = u ∧ past.length ∉ gone
        · obtain ⟨rfl, hstands⟩ := hv
          by_cases ht : v = t
          · subst ht
            have hq : q ≠ r := fun hq => hfound ⟨rfl, hq, hstands⟩
            simp [hstands, List.erase_cons_tail, hq]
          · simp [hstands, Ne.symm ht]
        · simp [hv]
    | _ => exact ih

end

theorem enteredOn_eq_standingOn (t : ThreadId) (past : List Event) : enteredOn t past = standingOn t past := by
  induction past with
  | nil => rfl
  | cons e past ih =>
    cases e with
    | entered u r =>
      have hnew : past.length ∉ undone past := fun hmem => Nat.lt_irrefl _ (lt_of_mem_undone hmem)
      simp only [enteredOn, standingOn, undone, entriesOn, hnew, not_false_eq_true, and_true]
      rw [ih, standingOn]
    | exited u r =>
      simp only [enteredOn, standingOn, undone, entriesOn, entriesOn_latestStanding?]
      rw [ih, standingOn]
    | _ => exact ih

/-! ### Timers that are open -/

/-- Whether a timer is alive and holds a recorder. -/
def holds (r : RecorderId) : Option Timer → Bool
  | some timer => timer.recorder == some r
  | none => false

namespace System

/-- The number of timers alive that hold a recorder. -/
def openTimers (s : System) (r : RecorderId) : Nat := s.timers.countP (holds r)

/-- Every recorder has a time pending for each timer that holds it. -/
def Counts (s : System) : Prop := ∀ r, (s.machine.pendingOf r).length = s.openTimers r

theorem length_addNested (d : Duration) (pending : List Duration) :
    (Recorder.addNested d pending).length = pending.length := by
  cases pending <;> rfl

theorem move_counts {s s' : System} (h : Move s s') (hs : Sound s) (hc : Counts s) : Counts s' := by
  intro r
  have hr := hc r
  cases h with
  | book => exact hr
  | opened p now entered =>
    rw [pendingOf_newInvocation]
    exact hr
  | entered => exact hr
  | exited => exact hr
  | created t origin now =>
    have hknown : ∀ q ∈ s.machine.active t, q < s.machine.recorders.length := by
      rw [hs.tracks t]
      exact hs.owns.known.active t
    rw [pendingOf_startTimer hknown, openTimers, List.countP_append, List.countP_singleton, startTimer_timer]
    by_cases hhead : (s.machine.active t).head? = some r
    · rw [if_pos hhead, List.length_cons, hr]
      simp [holds, hhead, openTimers]
    · rw [if_neg hhead, hr]
      simp [holds, hhead, openTimers]
  | @dropped k timer now alive =>
    obtain ⟨hk, htimer⟩ := List.getElem?_eq_some_iff.mp alive
    have hcount : (s.timers.set k none).countP (holds r) = s.timers.countP (holds r) -
        if timer.recorder = some r then 1 else 0 := by
      rw [List.countP_set hk, htimer]
      simp [holds]
    rw [pendingOf_stopTimer, openTimers, hcount]
    by_cases hi : timer.recorder = some r
    · rw [if_pos hi, if_pos hi, length_addNested, List.length_tail, hr, openTimers]
    · rw [if_neg hi, if_neg hi, hr, openTimers, Nat.sub_zero]
  | ended now alive =>
    rw [pendingOf_close]
    exact hr

theorem run_counts (steps : List Step) : Counts (run steps) := by
  have hrun : Sound (run steps) ∧ Counts (run steps) := by
    refine run_moves (motive := fun s => Sound s ∧ Counts s) ⟨sound_empty, fun _ => rfl⟩ (fun s s' h hs => ?_) steps
    exact ⟨move_sound s s' h hs.1, move_counts h hs.1 hs.2⟩
  exact hrun.2

theorem openTimers_pos {s : System} {k : Nat} {timer : Timer} {r : RecorderId}
    (hk : s.timers[k]? = some (some timer)) (hr : timer.recorder = some r) : 0 < s.openTimers r :=
  List.countP_pos_iff.mpr ⟨some timer, List.mem_of_getElem? hk, by simp [holds, hr]⟩

/-- The books of every run balance. A recorder has as many times pending as there are timers that hold it and are not
    dropped, also when its invocation is over. So the end of a timer finds the time that its record calls nested, and
    never makes up one for an empty stack. The stack of a thread is made up of the entries on it that no exit has
    undone, in their order. -/
theorem run_balances (steps : List Step) :
    (∀ (r : RecorderId) rec, (run steps).machine.recorders[r]? = some rec →
      rec.pending.length = (run steps).openTimers r) ∧
    (∀ (k : Nat) timer r now, (run steps).timers[k]? = some (some timer) → timer.recorder = some r →
      ∃ rec, (run steps).machine.recorders[r]? = some rec ∧
        rec.pending.head? = some ((run steps).machine.recordOf timer now).nested) ∧
    (∀ t, (run steps).machine.active t = standingOn t (run steps).past) := by
  have hcounts := run_counts steps
  refine ⟨fun r rec hrec => ?_, fun k timer r now hk hr => ?_, fun t => ?_⟩
  · have hr := hcounts r
    rwa [Machine.pendingOf, hrec] at hr
  · have hpos : 0 < ((run steps).machine.pendingOf r).length := by
      rw [hcounts r]
      exact openTimers_pos hk hr
    rw [recordOf_nested _ hr]
    cases hrec : (run steps).machine.recorders[r]? with
    | none => simp [Machine.pendingOf, hrec] at hpos
    | some rec =>
      simp only [Machine.pendingOf, hrec, Option.map_some, Option.getD_some] at hpos ⊢
      refine ⟨rec, rfl, ?_⟩
      rw [List.head?_eq_some_head (List.ne_nil_of_length_pos hpos), Option.getD_some]
  · rw [(run_sound steps).tracks t, enteredOn_eq_standingOn]

-- One recorder entered three times on a thread, with another one in between, and a timer that outlives its invocation.
example :
    let p : Profile := ⟨"f", ⟨10⟩, true, true⟩
    let s := run [.start 0 p ⟨0⟩, .scope 0, .beginPoll 0 0, .start 0 p ⟨1⟩, .beginPoll 0 0,
      .time 0 ⟨"a", "f", "lib.rs", 1, 1, 5, "a()"⟩ ⟨2⟩, .drop 0 0 ⟨3⟩]
    standingOn 0 s.past = [1, 0, 0] ∧ s.openTimers 0 = 1 := by
  decide +kernel

end System

end CallProbe.Profiler
