import CallProbe.Proofs.Profiler.Run

/-! # Invocations do not mix

Runs of profiled functions recur, are interleaved and move between threads, and all they share is the machine.
`run_isolates` says that nothing leaks: a report holds just the records of the timers that were created while its
invocation was the one entered latest on their thread, and that were dropped before it was, in the order of their
drops. The invariant that carries this holds the machine against the past: the stack of a thread is what was entered
and not exited there, and the records of an open invocation are those the past gives it. -/

namespace CallProbe.Profiler

open Call Time

/-! ### What is told -/

def Event.ends (i : Nat) : Event → Bool
  | .ended j _ _ _ => j = i
  | _ => false

/-- What is told of an invocation that took `total`, and to which callback. -/
structure Profile.Tells (p : Profile) (total : Duration) (report : Report) (told : Option Outcome) : Prop where
  function : report.function = p.function
  limit : report.limit = p.limit
  took : report.total = total
  told : told = if total.nanos < p.limit.nanos then (if p.below then some .below else none)
    else if p.above then some .above else none

/-- An event against what happened before it: a report holds the records of its invocation, a record is that of its
    timer. -/
def Event.Accounted (past : List Event) : Event → Prop
  | .ended i now report told => report.calls = recordsOf i past ∧
    ∃ profile start, .opened i profile start ∈ past ∧ profile.Tells (now.sub start) report told
  | .dropped k now record => ∃ t start before, .created k t record.origin start :: before <:+ past ∧
    ownerOf k past = (enteredOn t before).head? ∧ record.elapsed = now.sub start
  | _ => True

namespace System

/-! ### The stacks of the threads -/

/-- The stack of every thread is what was entered on it and not exited. -/
def Tracks (s : System) : Prop := ∀ t, s.machine.active t = enteredOn t s.past

theorem startTimer_active (m : Machine) (t : ThreadId) (origin : Origin) (now : Duration) :
    (m.startTimer t origin now).1.active = m.active := by
  unfold Machine.startTimer
  split <;> rfl

theorem stopTimer_active (m : Machine) (timer : Timer) (now : Duration) :
    (m.stopTimer timer now).active = m.active := by
  unfold Machine.stopTimer
  split <;> rfl

theorem move_tracks {s s' : System} (h : Move s s') (ht : Tracks s) : Tracks s' := by
  intro t
  have hs := ht t
  cases h with
  | book => exact hs
  | opened => exact hs
  | @entered u r known =>
    by_cases hu : u = t
    · subst hu
      simp [Machine.enter, Machine.setActive, enteredOn, hs]
    · simp [Machine.enter, Machine.setActive, enteredOn, hs, hu, Ne.symm hu]
  | exited u r =>
    by_cases hu : u = t
    · subst hu
      simp [Machine.exit, Machine.setActive, enteredOn, hs]
    · simp [Machine.exit, Machine.setActive, enteredOn, hs, hu, Ne.symm hu]
  | created u origin now =>
    rw [startTimer_active]
    exact hs
  | dropped now alive =>
    rw [stopTimer_active]
    exact hs
  | ended now alive => exact hs

/-! ### What belongs to whom -/

/-- No recorder but the first `n` is in use, nor was. -/
structure Known (n : Nat) (scopes : List RecorderId) (past : List Event) : Prop where
  scopes : ∀ r ∈ scopes, r < n
  active : ∀ t, ∀ r ∈ enteredOn t past, r < n
  owners : ∀ k r, ownerOf k past = some r → r < n
  drops : ∀ d ∈ dropsIn past, ∀ r, d.owner = some r → r < n

section
variable {n : Nat} {scopes : List RecorderId} {past : List Event}

theorem Known.mono {m : Nat} (h : Known n scopes past) (hle : n ≤ m) : Known m scopes past where
  scopes r hr := Nat.lt_of_lt_of_le (h.scopes r hr) hle
  active t r hr := Nat.lt_of_lt_of_le (h.active t r hr) hle
  owners k r hr := Nat.lt_of_lt_of_le (h.owners k r hr) hle
  drops d hd r hr := Nat.lt_of_lt_of_le (h.drops d hd r hr) hle

theorem Known.entered (h : Known n scopes past) (t : ThreadId) {r : RecorderId} (hr : r < n) :
    Known n scopes (.entered t r :: past) where
  scopes := h.scopes
  active u q hq := by
    by_cases hu : t = u
    · simp only [enteredOn, hu, ↓reduceIte, List.mem_cons] at hq
      rcases hq with rfl | hq
      · exact hr
      · exact h.active u q hq
    · simp only [enteredOn, hu, ↓reduceIte] at hq
      exact h.active u q hq
  owners := h.owners
  drops := h.drops

theorem Known.exited (h : Known n scopes past) (t : ThreadId) (r : RecorderId) :
    Known n scopes (.exited t r :: past) where
  scopes := h.scopes
  active u q hq := by
    by_cases hu : t = u
    · simp only [enteredOn, hu, ↓reduceIte] at hq
      exact h.active u q (List.mem_of_mem_erase hq)
    · simp only [enteredOn, hu, ↓reduceIte] at hq
      exact h.active u q hq
  owners := h.owners
  drops := h.drops

theorem Known.created (h : Known n scopes past) (k : Nat) (t : ThreadId) (origin : Origin) (start : Duration) :
    Known n scopes (.created k t origin start :: past) where
  scopes := h.scopes
  active := h.active
  owners j r hr := by
    by_cases hj : k = j
    · simp only [ownerOf, hj, ↓reduceIte] at hr
      exact h.active t r (List.mem_of_mem_head? hr)
    · simp only [ownerOf, hj, ↓reduceIte] at hr
      exact h.owners j r hr
  drops := h.drops

theorem Known.dropped (h : Known n scopes past) (k : Nat) (now : Duration) (record : Record) :
    Known n scopes (.dropped k now record :: past) where
  scopes := h.scopes
  active := h.active
  owners := h.owners
  drops d hd r hr := by
    rw [dropsIn, List.mem_append, List.mem_singleton] at hd
    rcases hd with hd | rfl
    · exact h.drops d hd r hr
    · exact h.owners k r hr

end

/-- Every invocation has the recorder of its own number, and no recorder is in use before it is made. -/
structure Owns (s : System) : Prop where
  made : s.machine.recorders.length = s.invocations.length
  own : ∀ (i : Nat) inv, s.invocations[i]? = some (some inv) → inv.recorder = i
  known : Known s.machine.recorders.length s.scopes s.past

@[simp]
theorem startTimer_length (m : Machine) (t : ThreadId) (origin : Origin) (now : Duration) :
    (m.startTimer t origin now).1.recorders.length = m.recorders.length := by
  unfold Machine.startTimer
  split
  · rfl
  · exact List.length_modify ..

@[simp]
theorem stopTimer_length (m : Machine) (timer : Timer) (now : Duration) :
    (m.stopTimer timer now).recorders.length = m.recorders.length := by
  unfold Machine.stopTimer
  split
  · rfl
  · exact List.length_modify ..

@[simp]
theorem close_length (m : Machine) (inv : Invocation) : (m.close inv).recorders.length = m.recorders.length :=
  List.length_modify ..

theorem Owns.alive {s : System} (h : Owns s) {i : Nat} {inv : Invocation} (hi : s.invocations[i]? = some (some inv)) :
    inv.recorder < s.machine.recorders.length := by
  rw [h.own i inv hi, h.made]
  exact (List.getElem?_eq_some_iff.mp hi).1

theorem alive_opened {α : Type} {l : List (Option α)} {a b : α} {i : Nat} (h : (l ++ [some a])[i]? = some (some b)) :
    l[i]? = some (some b) ∨ i = l.length ∧ a = b := by
  rcases Nat.lt_trichotomy i l.length with hi | rfl | hi
  · rw [List.getElem?_append_left hi] at h
    exact .inl h
  · simp at h
    exact .inr ⟨rfl, h⟩
  · rw [List.getElem?_eq_none (by simp; omega)] at h
    cases h

theorem alive_dropped {α : Type} {l : List (Option α)} {b : α} {i j : Nat} (h : (l.set j none)[i]? = some (some b)) :
    l[i]? = some (some b) ∧ i ≠ j := by
  by_cases hj : j = i
  · subst hj
    rw [List.getElem?_set_self' (l := l)] at h
    simp at h
  · rw [List.getElem?_set_ne hj] at h
    exact ⟨h, Ne.symm hj⟩

theorem move_owns {s s' : System} (h : Move s s') (ho : Owns s) : Owns s' := by
  cases h with
  | book scopes polls known =>
    refine ⟨ho.made, ho.own, fun r hr => ?_, ho.known.active, ho.known.owners, ho.known.drops⟩
    rcases known r hr with hold | ⟨i, inv, hi, rfl⟩
    · exact ho.known.scopes r hold
    · exact ho.alive hi
  | opened p now entered =>
    have hlength : (s.machine.newInvocation p now).1.recorders.length = s.machine.recorders.length + 1 := by
      simp [Machine.newInvocation]
    have hknown := ho.known.mono (Nat.le_succ _)
    refine ⟨by simp [hlength, ho.made], fun i inv hi => ?_, ?_⟩
    · rcases alive_opened hi with hi | ⟨rfl, rfl⟩
      · exact ho.own i inv hi
      · exact ho.made
    · simp only [hlength]
      exact ⟨hknown.scopes, hknown.active, hknown.owners, hknown.drops⟩
  | @entered u r known =>
    have hr : r < s.machine.recorders.length := known.elim (ho.known.scopes r) id
    exact ⟨ho.made, ho.own, ho.known.entered u hr⟩
  | exited u r => exact ⟨ho.made, ho.own, ho.known.exited u r⟩
  | created u origin now =>
    have hknown := ho.known.created s.timers.length u origin now
    exact ⟨by simp [ho.made], ho.own, by simpa using hknown⟩
  | @dropped k timer now alive =>
    have hknown := ho.known.dropped k now (s.machine.recordOf timer now)
    exact ⟨by simp [ho.made], ho.own, by simpa using hknown⟩
  | ended now alive =>
    refine ⟨by simp [ho.made], fun j inv' hj => ho.own j inv' (alive_dropped hj).1, ?_⟩
    simp only [close_length]
    exact ⟨ho.known.scopes, ho.known.active, ho.known.owners, ho.known.drops⟩

/-! ### Timers -/

/-- A timer that is alive belongs to whom the past says, and was created as the past says. -/
def Times (s : System) : Prop := ∀ (k : Nat) timer, s.timers[k]? = some (some timer) →
  timer.recorder = ownerOf k s.past ∧ ∃ t before, .created k t timer.origin timer.start :: before <:+ s.past ∧
    timer.recorder = (enteredOn t before).head?

theorem startTimer_timer (m : Machine) (t : ThreadId) (origin : Origin) (now : Duration) :
    (m.startTimer t origin now).2 = ⟨origin, (m.active t).head?, now⟩ := by
  unfold Machine.startTimer
  split
  · rename_i h
    rw [h]
  · rename_i h
    rw [h]

theorem move_times {s s' : System} (h : Move s s') (htracks : Tracks s) (ht : Times s) : Times s' := by
  -- An event that creates no timer says nothing about owners.
  have hkeep : ∀ e : Event, (∀ k, ownerOf k (e :: s.past) = ownerOf k s.past) → ∀ (k : Nat) timer,
      s.timers[k]? = some (some timer) → timer.recorder = ownerOf k (e :: s.past) ∧
        ∃ t before, .created k t timer.origin timer.start :: before <:+ e :: s.past ∧
          timer.recorder = (enteredOn t before).head? := by
    intro e he k timer hk
    obtain ⟨howner, t, before, hcreated, hhead⟩ := ht k timer hk
    exact ⟨by rw [he, howner], t, before, List.suffix_cons_iff.mpr (.inr hcreated), hhead⟩
  cases h with
  | book => exact ht
  | opened p now entered => exact hkeep _ fun _ => rfl
  | entered => exact hkeep _ fun _ => rfl
  | exited => exact hkeep _ fun _ => rfl
  | created t origin now =>
    intro k timer hk
    rcases alive_opened hk with hk | ⟨rfl, rfl⟩
    · obtain ⟨howner, u, before, hcreated, hhead⟩ := ht k timer hk
      have hne : s.timers.length ≠ k := Nat.ne_of_gt (List.getElem?_eq_some_iff.mp hk).1
      exact ⟨by rw [ownerOf, if_neg hne, howner], u, before, List.suffix_cons_iff.mpr (.inr hcreated), hhead⟩
    · rw [startTimer_timer]
      exact ⟨by rw [ownerOf, if_pos rfl, htracks t], t, s.past, List.suffix_rfl, by rw [htracks t]⟩
  | dropped now alive =>
    intro k timer hk
    exact hkeep _ (fun _ => rfl) k timer (alive_dropped hk).1
  | ended => exact hkeep _ fun _ => rfl

/-- No timer is created twice or dropped twice, so that whom it belongs to never changes. -/
structure Once (s : System) : Prop where
  nodup : ((dropsIn s.past).map Drop.timer).Nodup
  gone : ∀ d ∈ dropsIn s.past, s.timers[d.timer]? = some none
  owner : ∀ d ∈ dropsIn s.past, d.owner = ownerOf d.timer s.past
  created : ∀ k t origin start before, .created k t origin start :: before <:+ s.past →
    k < s.timers.length ∧ ownerOf k s.past = (enteredOn t before).head?

theorem suffix_past {e e' : Event} {before past : List Event} (h : e :: before <:+ e' :: past) :
    e = e' ∧ before = past ∨ e :: before <:+ past := by
  rcases List.suffix_cons_iff.mp h with h | h
  · injection h with he hpast
    exact .inl ⟨he, hpast⟩
  · exact .inr h

theorem move_once {s s' : System} (h : Move s s') (ho : Once s) : Once s' := by
  -- An event that creates no timer is not the creation of one.
  have hcreated : ∀ e : Event, (∀ k t origin start, e ≠ .created k t origin start) →
      (∀ k, ownerOf k (e :: s.past) = ownerOf k s.past) →
      ∀ k t origin start before, .created k t origin start :: before <:+ e :: s.past →
        k < s.timers.length ∧ ownerOf k (e :: s.past) = (enteredOn t before).head? := by
    intro e hne he k t origin start before hbefore
    rcases suffix_past hbefore with ⟨heq, -⟩ | hbefore
    · exact absurd heq.symm (hne k t origin start)
    · rw [he]
      exact ho.created k t origin start before hbefore
  cases h with
  | book => exact ⟨ho.nodup, ho.gone, ho.owner, ho.created⟩
  | opened => exact ⟨ho.nodup, ho.gone, ho.owner, hcreated _ (by simp) fun _ => rfl⟩
  | entered => exact ⟨ho.nodup, ho.gone, ho.owner, hcreated _ (by simp) fun _ => rfl⟩
  | exited => exact ⟨ho.nodup, ho.gone, ho.owner, hcreated _ (by simp) fun _ => rfl⟩
  | created u origin now =>
    have hold : ∀ k, k < s.timers.length →
        ownerOf k (.created s.timers.length u origin now :: s.past) = ownerOf k s.past := by
      intro k hk
      rw [ownerOf, if_neg (Nat.ne_of_gt hk)]
    refine ⟨ho.nodup, fun d hd => ?_, fun d hd => ?_, fun k t origin start before hbefore => ?_⟩
    · have hgone := ho.gone d hd
      rw [List.getElem?_append_left (List.getElem?_eq_some_iff.mp hgone).1, hgone]
    · rw [hold _ (List.getElem?_eq_some_iff.mp (ho.gone d hd)).1]
      exact ho.owner d hd
    · rcases suffix_past hbefore with ⟨heq, rfl⟩ | hbefore
      · injection heq with hk ht
        subst hk ht
        exact ⟨by simp, by rw [ownerOf, if_pos rfl]⟩
      · obtain ⟨hlt, howner⟩ := ho.created k t origin start before hbefore
        exact ⟨by simp; omega, by rw [hold k hlt, howner]⟩
  | @dropped k timer now alive =>
    have hnew : k ∉ (dropsIn s.past).map Drop.timer := by
      intro hk
      obtain ⟨d, hd, rfl⟩ := List.mem_map.mp hk
      rw [ho.gone d hd] at alive
      cases alive
    have hlength := (List.getElem?_eq_some_iff.mp alive).1
    refine ⟨?_, fun d hd => ?_, fun d hd => ?_, ?_⟩
    · simp only [dropsIn, List.map_append, List.map_cons, List.map_nil]
      exact List.nodup_append.mpr ⟨ho.nodup, by simp, by simpa using hnew⟩
    · rw [dropsIn, List.mem_append, List.mem_singleton] at hd
      rcases hd with hd | rfl
      · have hne : k ≠ d.timer := fun he => hnew (he ▸ List.mem_map_of_mem hd)
        rw [List.getElem?_set_ne hne, ho.gone d hd]
      · exact List.getElem?_set_self hlength
    · rw [dropsIn, List.mem_append, List.mem_singleton] at hd
      rcases hd with hd | rfl
      · exact ho.owner d hd
      · rfl
    · simp only [List.length_set]
      exact hcreated _ (by simp) fun _ => rfl
  | ended => exact ⟨ho.nodup, ho.gone, ho.owner, hcreated _ (by simp) fun _ => rfl⟩

/-! ### Records -/

/-- An open invocation holds the records that the past gives it. -/
def Keeps (s : System) : Prop := ∀ (i : Nat) inv, s.invocations[i]? = some (some inv) →
  ∃ rec, s.machine.recorders[i]? = some rec ∧ rec.closed = false ∧ rec.calls = recordsOf i s.past

theorem recordsOf_eq_nil {n : Nat} {past : List Event} (h : ∀ d ∈ dropsIn past, ∀ r, d.owner = some r → r < n) :
    recordsOf n past = [] := by
  have hfilter : (dropsIn past).filter (fun d => d.owner = some n) = [] := by
    refine List.filter_eq_nil_iff.mpr fun d hd howner => ?_
    exact Nat.lt_irrefl n (h d hd n (by simpa using howner))
  rw [recordsOf, hfilter]
  rfl

theorem recordsOf_dropped (i k : Nat) (now : Duration) (record : Record) (past : List Event) :
    recordsOf i (.dropped k now record :: past) =
      if ownerOf k past = some i then recordsOf i past ++ [record] else recordsOf i past := by
  rw [recordsOf, dropsIn, List.filter_append]
  by_cases h : ownerOf k past = some i
  · simp [h, recordsOf]
  · simp [h, recordsOf]

theorem startTimer_recorder {m : Machine} {i : Nat} {rec : Recorder} (h : m.recorders[i]? = some rec) (t : ThreadId)
    (origin : Origin) (now : Duration) :
    ∃ pending, (m.startTimer t origin now).1.recorders[i]? = some { rec with pending } := by
  unfold Machine.startTimer
  split
  · exact ⟨rec.pending, h⟩
  · rename_i r _
    by_cases hr : r = i
    · subst hr
      exact ⟨.zero :: rec.pending, by simp [h]⟩
    · exact ⟨rec.pending, by simp [List.getElem?_modify_ne _ _ hr, h]⟩

/-- The end of a timer concerns its own recorder only. -/
theorem stopTimer_recorder {m : Machine} {i : Nat} {rec : Recorder} (h : m.recorders[i]? = some rec) (timer : Timer)
    (now : Duration) : (m.stopTimer timer now).recorders[i]? =
      some (if timer.recorder = some i then rec.finish timer.origin (now.sub timer.start) else rec) := by
  unfold Machine.stopTimer
  split
  · rename_i hnone
    simp [hnone, h]
  · rename_i r hr
    by_cases hi : r = i
    · subst hi
      simp [hr, h]
    · simp [hr, hi, List.getElem?_modify_ne _ _ hi, h]

theorem finish_calls {m : Machine} {i : Nat} {rec : Recorder} (h : m.recorders[i]? = some rec)
    (hopen : rec.closed = false) {timer : Timer} (hr : timer.recorder = some i) (now : Duration) :
    (rec.finish timer.origin (now.sub timer.start)).calls = rec.calls ++ [m.recordOf timer now] := by
  simp [Recorder.finish, Machine.recordOf, hopen, hr, h]

theorem move_keeps {s s' : System} (h : Move s s') (ho : Owns s) (ht : Times s) (hk : Keeps s) : Keeps s' := by
  cases h with
  | book => exact hk
  | opened p now entered =>
    intro i inv hi
    rcases alive_opened hi with hi | ⟨rfl, -⟩
    · obtain ⟨rec, hrec, hopen, hcalls⟩ := hk i inv hi
      refine ⟨rec, ?_, hopen, hcalls⟩
      simp only [Machine.newInvocation]
      rw [List.getElem?_append_left (List.getElem?_eq_some_iff.mp hrec).1, hrec]
    · refine ⟨{}, ?_, rfl, ?_⟩
      · simp [Machine.newInvocation, ← ho.made]
      · rw [← ho.made]
        exact (recordsOf_eq_nil ho.known.drops).symm
  | entered => exact hk
  | exited => exact hk
  | created t origin now =>
    intro i inv hi
    obtain ⟨rec, hrec, hopen, hcalls⟩ := hk i inv hi
    obtain ⟨pending, hnew⟩ := startTimer_recorder hrec t origin now
    exact ⟨_, hnew, hopen, hcalls⟩
  | @dropped k timer now alive =>
    intro i inv hi
    obtain ⟨rec, hrec, hopen, hcalls⟩ := hk i inv hi
    -- The timer and the past agree on the owner, so the recorder grows just if the records of the past do.
    have howner := (ht k timer alive).1
    refine ⟨_, stopTimer_recorder hrec timer now, ?_⟩
    rw [recordsOf_dropped, ← howner]
    by_cases hr : timer.recorder = some i
    · rw [if_pos hr, if_pos hr, finish_calls hrec hopen hr, hcalls]
      exact ⟨hopen, rfl⟩
    · rw [if_neg hr, if_neg hr]
      exact ⟨hopen, hcalls⟩
  | @ended j inv' now alive =>
    intro i inv hi
    obtain ⟨hold, hne⟩ := alive_dropped hi
    obtain ⟨rec, hrec, hopen, hcalls⟩ := hk i inv hold
    have hother : inv'.recorder ≠ i := by
      rw [ho.own j inv' alive]
      exact Ne.symm hne
    exact ⟨rec, by simp [Machine.close, List.getElem?_modify_ne _ _ hother, hrec], hopen, hcalls⟩

/-! ### Reports -/

theorem tells_reportOf (m : Machine) (inv : Invocation) (now : Duration) :
    inv.profile.Tells (now.sub inv.start) (m.reportOf inv now) (inv.profile.told (m.reportOf inv now)) := by
  refine ⟨rfl, rfl, rfl, ?_⟩
  simp only [Profile.told, Machine.reportOf, Outcome.of]
  split <;> rfl

/-- An open invocation was opened as the past says, every invocation that is over was ended once, and all that was
    told was accounted for. -/
structure Reports (s : System) : Prop where
  opened : ∀ (i : Nat) inv, s.invocations[i]? = some (some inv) → .opened i inv.profile inv.start ∈ s.past
  ended : ∀ i, s.past.countP (Event.ends i) = if s.invocations[i]? = some none then 1 else 0
  accounted : ∀ e before, e :: before <:+ s.past → e.Accounted before

theorem accounted_cons {e : Event} {past : List Event} (he : e.Accounted past)
    (h : ∀ e before, e :: before <:+ past → e.Accounted before) :
    ∀ e' before, e' :: before <:+ e :: past → e'.Accounted before := by
  intro e' before hbefore
  rcases suffix_past hbefore with ⟨rfl, rfl⟩ | hbefore
  · exact he
  · exact h e' before hbefore

theorem move_reports {s s' : System} (h : Move s s') (ho : Owns s) (ht : Times s) (hk : Keeps s) (hr : Reports s) :
    Reports s' := by
  have hopened : ∀ e : Event, ∀ (i : Nat) inv, s.invocations[i]? = some (some inv) →
      .opened i inv.profile inv.start ∈ e :: s.past :=
    fun e i inv hi => List.mem_cons_of_mem e (hr.opened i inv hi)
  cases h with
  | book => exact ⟨hr.opened, hr.ended, hr.accounted⟩
  | opened p now entered =>
    refine ⟨fun i inv hi => ?_, fun i => ?_, accounted_cons trivial hr.accounted⟩
    · rcases alive_opened hi with hi | ⟨rfl, rfl⟩
      · exact hopened _ i inv hi
      · exact List.mem_cons_self
    · have hcount := hr.ended i
      have hgone : (s.invocations ++ [some ⟨p, now, s.machine.recorders.length, entered⟩])[i]? = some none ↔
          s.invocations[i]? = some none := by
        grind
      simpa [List.countP_cons, Event.ends, hgone] using hcount
  | entered => exact ⟨hopened _, hr.ended, accounted_cons trivial hr.accounted⟩
  | exited => exact ⟨hopened _, hr.ended, accounted_cons trivial hr.accounted⟩
  | created => exact ⟨hopened _, hr.ended, accounted_cons trivial hr.accounted⟩
  | @dropped k timer now alive =>
    obtain ⟨howner, t, before, hcreated, hhead⟩ := ht k timer alive
    refine ⟨hopened _, hr.ended, accounted_cons ?_ hr.accounted⟩
    exact ⟨t, timer.start, before, hcreated, howner ▸ hhead, rfl⟩
  | @ended j inv now alive =>
    refine ⟨fun i inv' hi => hopened _ i inv' (alive_dropped hi).1, fun i => ?_, accounted_cons ?_ hr.accounted⟩
    · have hcount := hr.ended i
      by_cases hi : j = i
      · subst hi
        have hlength := (List.getElem?_eq_some_iff.mp alive).1
        simp [alive] at hcount
        simp [Event.ends, hlength, List.countP_eq_zero]
        exact hcount
      · simp [Event.ends, hi, List.getElem?_set_ne hi, hcount]
    · obtain ⟨rec, hrec, -, hcalls⟩ := hk j inv alive
      refine ⟨?_, inv.profile, inv.start, hr.opened j inv alive, tells_reportOf s.machine inv now⟩
      simp only [Machine.reportOf, ho.own j inv alive, hrec, Option.map_some, Option.getD_some, hcalls]

/-! ### Whole runs -/

/-- All that holds of a run. -/
structure Sound (s : System) : Prop where
  tracks : Tracks s
  owns : Owns s
  times : Times s
  once : Once s
  keeps : Keeps s
  reports : Reports s

theorem sound_empty : Sound {} where
  tracks _ := rfl
  owns := ⟨rfl, by simp, by simp, by simp [enteredOn], by simp [ownerOf], by simp [dropsIn]⟩
  times _ _ h := by simp at h
  once := ⟨by simp [dropsIn], by simp [dropsIn], by simp [dropsIn], by simp⟩
  keeps _ _ h := by simp at h
  reports := ⟨by simp, by simp, by simp⟩

theorem move_sound (s s' : System) (h : Move s s') (hs : Sound s) : Sound s' where
  tracks := move_tracks h hs.tracks
  owns := move_owns h hs.owns
  times := move_times h hs.tracks hs.times
  once := move_once h hs.once
  keeps := move_keeps h hs.owns hs.times hs.keeps
  reports := move_reports h hs.owns hs.times hs.keeps hs.reports

theorem run_sound (steps : List Step) : Sound (run steps) := run_moves sound_empty move_sound steps

theorem mem_dropsIn_of_suffix {before past : List Event} (h : before <:+ past) {d : Drop} (hd : d ∈ dropsIn before) :
    d ∈ dropsIn past := by
  induction past with
  | nil =>
    rw [List.suffix_nil.mp h] at hd
    exact hd
  | cons e past ih =>
    rcases List.suffix_cons_iff.mp h with rfl | h
    · exact hd
    · have hpast := ih h
      cases e with
      | dropped => exact List.mem_append_left _ hpast
      | _ => exact hpast

/-- The record of a timer is in the report of an invocation. -/
def Contributes (past : List Event) (k i : Nat) : Prop := ∃ now report told before,
  .ended i now report told :: before <:+ past ∧ ∃ d ∈ dropsIn before, d.timer = k ∧ d.owner = some i

theorem Once.owner_of_contributes {s : System} (h : Once s) {k i : Nat} (hc : Contributes s.past k i) :
    ownerOf k s.past = some i := by
  obtain ⟨now, report, told, before, hbefore, d, hd, rfl, howner⟩ := hc
  have hsuffix : before <:+ s.past := (List.suffix_cons _ before).trans hbefore
  rw [← h.owner d (mem_dropsIn_of_suffix hsuffix hd), howner]

/-- Invocations do not mix, whatever a program does and in whatever order. The report of an invocation holds the
    records of its timers dropped before it, in the order of the drops; a timer is that of the recorder entered latest
    on its thread when it was created, which has the number of its invocation. So no timer is in two reports, and one
    created outside of every invocation is in none. Every invocation that is over was reported once, to the callback
    of its outcome if there is one. -/
theorem run_isolates (steps : List Step) :
    (∀ (i : Nat) inv, (run steps).invocations[i]? = some (some inv) → inv.recorder = i) ∧
    (∀ i now report told before, .ended i now report told :: before <:+ (run steps).past →
      report.calls = recordsOf i before ∧
        ∃ profile start, .opened i profile start ∈ before ∧ profile.Tells (now.sub start) report told) ∧
    (∀ k now record before, .dropped k now record :: before <:+ (run steps).past →
      ∃ t start earlier, .created k t record.origin start :: earlier <:+ before ∧
        ownerOf k before = (enteredOn t earlier).head? ∧ record.elapsed = now.sub start) ∧
    ((dropsIn (run steps).past).map Drop.timer).Nodup ∧
    (∀ k i j, Contributes (run steps).past k i → Contributes (run steps).past k j → i = j) ∧
    (∀ k t origin start before, .created k t origin start :: before <:+ (run steps).past → enteredOn t before = [] →
      ∀ i, ¬ Contributes (run steps).past k i) ∧
    (∀ i, (run steps).past.countP (Event.ends i) = if (run steps).invocations[i]? = some none then 1 else 0) := by
  have hs := run_sound steps
  refine ⟨hs.owns.own, ?_, ?_, hs.once.nodup, ?_, ?_, hs.reports.ended⟩
  · intro i now report told before hended
    exact hs.reports.accounted _ before hended
  · intro k now record before hdropped
    exact hs.reports.accounted _ before hdropped
  · -- A timer has one owner, which every report that it is in belongs to.
    intro k i j hi hj
    have hboth := (hs.once.owner_of_contributes hi).symm.trans (hs.once.owner_of_contributes hj)
    exact Option.some.inj hboth
  · intro k t origin start before hcreated hnone i hi
    have howner := (hs.once.created k t origin start before hcreated).2
    rw [hs.once.owner_of_contributes hi, hnone] at howner
    cases howner

/-- The reports of a past, the oldest first, each with its invocation and the callback that was told. -/
def reportsIn : List Event → List (Nat × Report × Option Outcome)
  | [] => []
  | .ended i _ report told :: past => reportsIn past ++ [(i, report, told)]
  | _ :: past => reportsIn past

/-- The origin of a call that is one line of a file. -/
def callOn (line : UInt32) (name function : String) : Origin := ⟨name, function, "m.rs", line, line, 4, name⟩

/-- Two invocations polled in turn on one thread. The timer of the first is dropped while the second is polled, and a third
    timer is created when none is. -/
def interleaved : List Step :=
  [.new ⟨"f", ⟨12⟩, true, true⟩ ⟨0⟩, .new ⟨"g", ⟨20⟩, false, true⟩ ⟨1⟩, .scope 0, .scope 1, .beginPoll 0 0,
    .time 0 (callOn 1 "a" "f") ⟨1⟩, .endPoll 0, .beginPoll 0 1, .time 0 (callOn 2 "b" "g") ⟨2⟩, .dropTimer 0 ⟨5⟩,
    .endPoll 1, .time 0 (callOn 3 "c" "h") ⟨6⟩, .dropTimer 2 ⟨8⟩, .dropTimer 1 ⟨9⟩, .drop 0 1 ⟨11⟩, .drop 0 0 ⟨12⟩]

/-- Each report holds the call of its own invocation, the call outside of both is in none, and only the first invocation
    has a callback for its outcome. -/
theorem run_isolates_interleaved :
    reportsIn (run interleaved).past =
      [(1, ⟨"g", ⟨10⟩, ⟨20⟩, .below, [⟨callOn 2 "b" "g", ⟨7⟩, .zero⟩]⟩, none),
        (0, ⟨"f", ⟨12⟩, ⟨12⟩, .above, [⟨callOn 1 "a" "f", ⟨4⟩, .zero⟩]⟩, some .above)] ∧
    ∀ i, (run interleaved).past.countP (Event.ends i) = if i < 2 then 1 else 0 := by
  refine ⟨by decide +kernel, fun i => ?_⟩
  obtain ⟨-, -, -, -, -, -, hended⟩ := run_isolates interleaved
  have hinvocations : (run interleaved).invocations = [none, none] := by decide +kernel
  rw [hended, hinvocations]
  rcases i with - | - | i <;> simp

end System

end CallProbe.Profiler
