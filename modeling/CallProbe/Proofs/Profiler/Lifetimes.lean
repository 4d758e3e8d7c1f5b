import CallProbe.Proofs.Profiler.Isolation
import Mathlib.Algebra.Ring.Nat

/-! # Lifetimes of timers

Of all that happens, an invocation only notices the starts and the ends of its own timers. `marksOf` keeps these, and a
moment is the number of marks before it, so that a timer which has ended has a `Life`: from the moment it was created
to the moment it was dropped.

A recorder knows its open timers only as a stack of times without names. `ledger` is that stack with the lives that
make up each time, and below it those whose time was charged to none. `run_faithful` says that every record a run makes
holds the time on top of that stack. -/

namespace CallProbe.Profiler

open Call Time

/-! ### The marks of an invocation -/

/-- What an invocation notices. -/
inductive Mark where
  | start (timer : Nat) (now : Duration)
  | stop (timer : Nat) (now : Duration) (record : Record)

/-- The starts and ends of the timers of an invocation, newest first. -/
def marksOf (i : Nat) : List Event → List Mark
  | [] => []
  | .created k t _ now :: past => if (enteredOn t past).head? = some i then .start k now :: marksOf i past else marksOf i past
  | .dropped k now record :: past => if ownerOf k past = some i then .stop k now record :: marksOf i past else marksOf i past
  | _ :: past => marksOf i past

/-- A timer that has ended, from the moment of its creation to that of its drop. -/
structure Life where
  timer : Nat
  born : Nat
  died : Nat
  record : Record

namespace Life

def elapsed (l : Life) : Nat := l.record.elapsed.nanos

/-- The whole lifetime of a timer lies in that of another. -/
def Inside (a b : Life) : Prop := b.born < a.born ∧ a.died < b.died

/-- A timer was created before another, and dropped while the other was open. -/
def Crosses (a b : Life) : Prop := a.born < b.born ∧ b.born < a.died ∧ a.died < b.died

instance (a b : Life) : Decidable (a.Inside b) := inferInstanceAs (Decidable (_ ∧ _))

instance (a b : Life) : Decidable (a.Crosses b) := inferInstanceAs (Decidable (_ ∧ _))

end Life

namespace Mark

def started : List Mark → List Nat
  | [] => []
  | .start k _ :: ms => k :: started ms
  | .stop _ _ _ :: ms => started ms

/-- The timers that are open, the newest first. -/
def running : List Mark → List Nat
  | [] => []
  | .start k _ :: ms => k :: running ms
  | .stop k _ _ :: ms => (running ms).erase k

/-- The moment at which a timer was created. -/
def bornAt (k : Nat) : List Mark → Nat
  | [] => 0
  | .start j _ :: ms => if j = k then ms.length else bornAt k ms
  | .stop _ _ _ :: ms => bornAt k ms

/-- The time at which a timer was created. -/
def startOf (k : Nat) : List Mark → Duration
  | [] => .zero
  | .start j now :: ms => if j = k then now else startOf k ms
  | .stop _ _ _ :: ms => startOf k ms

/-- The life that ends with the drop of a timer. -/
def lifeOf (k : Nat) (record : Record) (ms : List Mark) : Life := ⟨k, bornAt k ms, ms.length, record⟩

/-- The timers that have ended, in the order of their drops. -/
def lives : List Mark → List Life
  | [] => []
  | .start _ _ :: ms => lives ms
  | .stop k _ record :: ms => lives ms ++ [lifeOf k record ms]

/-- Charges a life to the first of some accounts. -/
def charge (l : Life) : List (List Life) → List (List Life)
  | [] => []
  | account :: rest => (account ++ [l]) :: rest

/-- The accounts of the open timers, newest first, and last the lives that were charged to no timer. The end of a timer
    closes the newest account, whosever it is. -/
def ledger : List Mark → List (List Life)
  | [] => [[]]
  | .start _ _ :: ms => [] :: ledger ms
  | .stop k _ record :: ms => charge (lifeOf k record ms) (ledger ms).tail

end Mark

open Mark

/-- The time of some timers together. -/
def elapsedSum (ls : List Life) : Nat := (ls.map Life.elapsed).sum

/-- The lives on the newest account. -/
def newestAccount (ms : List Mark) : List Life := (ledger ms).headD []

/-- Marks that a run can leave: timers are created once, only open timers end, and a record holds the time since its
    timer was created and that of the newest account. -/
def Faithful : List Mark → Prop
  | [] => True
  | .start k _ :: ms => k ∉ started ms ∧ Faithful ms
  | .stop k now record :: ms => k ∈ running ms ∧ record.elapsed = now.sub (startOf k ms) ∧
    record.nested.nanos = elapsedSum (newestAccount ms) ∧ Faithful ms

theorem elapsedSum_append (ls ms : List Life) : elapsedSum (ls ++ ms) = elapsedSum ls + elapsedSum ms := by
  simp [elapsedSum]

theorem elapsedSum_singleton (l : Life) : elapsedSum [l] = l.elapsed := by
  simp [elapsedSum]

/-! ### Marks and the past -/

theorem marksOf_created {i : Nat} (k : Nat) (t : ThreadId) (origin : Origin) (now : Duration) (past : List Event) :
    marksOf i (.created k t origin now :: past) =
      if (enteredOn t past).head? = some i then .start k now :: marksOf i past else marksOf i past := rfl

theorem marksOf_dropped {i : Nat} (k : Nat) (now : Duration) (record : Record) (past : List Event) :
    marksOf i (.dropped k now record :: past) =
      if ownerOf k past = some i then .stop k now record :: marksOf i past else marksOf i past := rfl

theorem marksOf_suffix (i : Nat) {before past : List Event} (h : before <:+ past) : marksOf i before <:+ marksOf i past := by
  induction past with
  | nil =>
    obtain rfl := List.suffix_nil.mp h
    exact List.suffix_rfl
  | cons e past ih =>
    rcases List.suffix_cons_iff.mp h with rfl | h
    · exact List.suffix_rfl
    · have hpast := ih h
      cases e with
      | created k t origin now =>
        rw [marksOf_created]
        split
        · exact hpast.trans (List.suffix_cons _ _)
        · exact hpast
      | dropped k now record =>
        rw [marksOf_dropped]
        split
        · exact hpast.trans (List.suffix_cons _ _)
        · exact hpast
      | _ => exact hpast

/-- The records of an invocation are those of the lives of its timers. -/
theorem recordsOf_eq (i : Nat) (past : List Event) : recordsOf i past = (lives (marksOf i past)).map Life.record := by
  induction past with
  | nil => rfl
  | cons e past ih =>
    cases e with
    | created k t origin now =>
      rw [marksOf_created]
      split <;> exact ih
    | dropped k now record =>
      rw [System.recordsOf_dropped, marksOf_dropped]
      split
      · simp [lives, lifeOf, ih]
      · exact ih
    | _ => exact ih

theorem Faithful.suffix {ms ns : List Mark} (h : Faithful ns) (hs : ms <:+ ns) : Faithful ms := by
  induction ns with
  | nil =>
    rw [List.suffix_nil.mp hs]
    exact h
  | cons m ns ih =>
    rcases List.suffix_cons_iff.mp hs with rfl | hns
    · exact h
    · cases m with
      | start k now => exact ih h.2 hns
      | stop k now record => exact ih h.2.2.2 hns

/-! ### Moments -/

theorem mem_started_of_mem_running {ms : List Mark} {k : Nat} (h : k ∈ running ms) : k ∈ started ms := by
  induction ms with
  | nil => exact h
  | cons m ms ih =>
    cases m with
    | start j now =>
      rcases List.mem_cons.mp h with rfl | h
      · exact List.mem_cons_self
      · exact List.mem_cons_of_mem j (ih h)
    | stop j now record => exact ih (List.mem_of_mem_erase h)

theorem mem_started_of_suffix {ms ns : List Mark} (h : ms <:+ ns) {k : Nat} (hk : k ∈ started ms) : k ∈ started ns := by
  induction ns with
  | nil =>
    rw [List.suffix_nil.mp h] at hk
    exact hk
  | cons m ns ih =>
    rcases List.suffix_cons_iff.mp h with rfl | hns
    · exact hk
    · cases m with
      | start j now => exact List.mem_cons_of_mem j (ih hns)
      | stop j now record => exact ih hns

theorem exists_start {ms : List Mark} {k : Nat} (hk : k ∈ started ms) : ∃ now earlier, .start k now :: earlier <:+ ms := by
  induction ms with
  | nil => cases hk
  | cons m ms ih =>
    cases m with
    | start j now =>
      rcases List.mem_cons.mp hk with rfl | hk
      · exact ⟨now, ms, List.suffix_rfl⟩
      · obtain ⟨now', earlier, hearlier⟩ := ih hk
        exact ⟨now', earlier, hearlier.trans (List.suffix_cons _ _)⟩
    | stop j now record =>
      obtain ⟨now', earlier, hearlier⟩ := ih hk
      exact ⟨now', earlier, hearlier.trans (List.suffix_cons _ _)⟩

theorem bornAt_lt {ms : List Mark} {k : Nat} (hk : k ∈ started ms) : bornAt k ms < ms.length := by
  induction ms with
  | nil => cases hk
  | cons m ms ih =>
    rw [List.length_cons]
    cases m with
    | start j now =>
      rw [bornAt]
      split
      · omega
      · rename_i hne
        rcases List.mem_cons.mp hk with rfl | hk
        · exact absurd rfl hne
        · exact Nat.lt_succ_of_lt (ih hk)
    | stop j now record => exact Nat.lt_succ_of_lt (ih hk)

/-- The moment of a creation does not depend on what came after it. -/
theorem bornAt_of_suffix {ms ns : List Mark} (hf : Faithful ns) (h : ms <:+ ns) {k : Nat} (hk : k ∈ started ms) :
    bornAt k ns = bornAt k ms := by
  induction ns with
  | nil => rw [List.suffix_nil.mp h]
  | cons m ns ih =>
    rcases List.suffix_cons_iff.mp h with rfl | hns
    · rfl
    · cases m with
      | start j now =>
        have hne : j ≠ k := by
          rintro rfl
          exact hf.1 (mem_started_of_suffix hns hk)
        rw [bornAt, if_neg hne]
        exact ih hf.2 hns
      | stop j now record => exact ih hf.2.2.2 hns

theorem bornAt_start {ms earlier : List Mark} (hf : Faithful ms) {k : Nat} {now : Duration}
    (h : .start k now :: earlier <:+ ms) : bornAt k ms = earlier.length := by
  rw [bornAt_of_suffix hf h (k := k) List.mem_cons_self, bornAt, if_pos rfl]

/-- No two timers are created at one moment. -/
theorem bornAt_inj {ms : List Mark} (hf : Faithful ms) {j k : Nat} (hj : j ∈ started ms) (hk : k ∈ started ms)
    (h : bornAt j ms = bornAt k ms) : j = k := by
  obtain ⟨now, earlier, hearlier⟩ := exists_start hj
  obtain ⟨now', earlier', hearlier'⟩ := exists_start hk
  rw [bornAt_start hf hearlier, bornAt_start hf hearlier'] at h
  have heq := List.suffix_or_suffix_of_suffix hearlier hearlier'
  have hsame : Mark.start j now :: earlier = .start k now' :: earlier' := by
    rcases heq with hs | hs
    · exact hs.eq_of_length (by simp [h])
    · exact (hs.eq_of_length (by simp [h])).symm
  injection hsame with hstart
  injection hstart

theorem nodup_running {ms : List Mark} (hf : Faithful ms) : (running ms).Nodup := by
  induction ms with
  | nil => exact List.nodup_nil
  | cons m ms ih =>
    cases m with
    | start k now =>
      refine List.nodup_cons.mpr ⟨fun hk => hf.1 (mem_started_of_mem_running hk), ih hf.2⟩
    | stop k now record => exact (ih hf.2.2.2).erase k

/-- Every life ends with the drop of its timer. -/
theorem stop_of_mem_lives {ms : List Mark} {l : Life} (hl : l ∈ lives ms) :
    ∃ now before, .stop l.timer now l.record :: before <:+ ms ∧ l = lifeOf l.timer l.record before := by
  induction ms with
  | nil => cases hl
  | cons m ms ih =>
    cases m with
    | start k now =>
      obtain ⟨now', before, hbefore, he⟩ := ih hl
      exact ⟨now', before, hbefore.trans (List.suffix_cons _ _), he⟩
    | stop k now record =>
      rcases List.mem_append.mp hl with hl | hl
      · obtain ⟨now', before, hbefore, he⟩ := ih hl
        exact ⟨now', before, hbefore.trans (List.suffix_cons _ _), he⟩
      · rw [List.mem_singleton] at hl
        subst hl
        exact ⟨now, ms, List.suffix_rfl, rfl⟩

theorem died_lt {ms : List Mark} {l : Life} (hl : l ∈ lives ms) : l.died < ms.length := by
  obtain ⟨now, before, hbefore, he⟩ := stop_of_mem_lives hl
  have hlength := hbefore.length_le
  rw [List.length_cons] at hlength
  rw [he]
  exact hlength

theorem lives_of_suffix {ms ns : List Mark} (h : ms <:+ ns) : lives ms <+: lives ns := by
  induction ns with
  | nil =>
    obtain rfl := List.suffix_nil.mp h
    exact List.prefix_rfl
  | cons m ns ih =>
    rcases List.suffix_cons_iff.mp h with rfl | hns
    · exact List.prefix_rfl
    · cases m with
      | start k now => exact ih hns
      | stop k now record => exact (ih hns).trans (List.prefix_append _ _)

/-! ### Open timers and their accounts -/

theorem length_charge (l : Life) (accounts : List (List Life)) : (charge l accounts).length = accounts.length := by
  cases accounts <;> rfl

/-- There is one account for each open timer, and one more. -/
theorem length_ledger {ms : List Mark} (h : Faithful ms) : (ledger ms).length = (running ms).length + 1 := by
  induction ms with
  | nil => rfl
  | cons m ms ih =>
    cases m with
    | start k now => simp [ledger, running, ih h.2]
    | stop k now record =>
      have hlength := ih h.2.2.2
      have hpos := List.length_pos_of_mem h.1
      simp only [ledger, running, length_charge, List.length_tail, List.length_erase_of_mem h.1, hlength]
      omega

/-- When a timer ends, its recorder has an account for it and one below. -/
theorem ledger_of_mem_running {ms : List Mark} (h : Faithful ms) {k : Nat} (hk : k ∈ running ms) :
    ∃ newest next rest, ledger ms = newest :: next :: rest := by
  have hlength := length_ledger h
  have hpos := List.length_pos_of_mem hk
  match hl : ledger ms with
  | [] =>
    rw [hl] at hlength
    cases hlength
  | [_] =>
    rw [hl, List.length_singleton] at hlength
    omega
  | newest :: next :: rest => exact ⟨newest, next, rest, rfl⟩

theorem ledger_sublist {ms : List Mark} : ∀ account ∈ ledger ms, account.Sublist (lives ms) := by
  induction ms with
  | nil => simp [ledger, lives]
  | cons m ms ih =>
    cases m with
    | start k now =>
      intro account haccount
      rcases List.mem_cons.mp haccount with rfl | haccount
      · exact List.nil_sublist _
      · exact ih account haccount
    | stop k now record =>
      intro account haccount
      simp only [ledger, lives] at haccount ⊢
      match hl : ledger ms with
      | [] | [_] =>
        rw [hl] at haccount
        cases haccount
      | newest :: next :: rest =>
        rw [hl, List.tail_cons, charge] at haccount
        rw [hl] at ih
        rcases List.mem_cons.mp haccount with rfl | haccount
        · exact (ih next (by simp)).append (List.Sublist.refl _)
        · exact (ih account (by simp [haccount])).trans (List.sublist_append_left _ _)

/-! ### What a recorder holds -/

/-- The times that the recorder of an invocation holds for its open timers, newest first. -/
def Machine.pendingOf (m : Machine) (i : Nat) : List Duration := ((m.recorders[i]?).map Recorder.pending).getD []

/-- The times of the accounts of the open timers. -/
def accountTimes (ms : List Mark) : List Duration := (ledger ms).dropLast.map fun account => ⟨elapsedSum account⟩

theorem accountTimes_start (k : Nat) (now : Duration) {ms : List Mark} (h : Faithful ms) :
    accountTimes (.start k now :: ms) = .zero :: accountTimes ms := by
  have hlength := length_ledger h
  match hl : ledger ms with
  | [] =>
    rw [hl] at hlength
    cases hlength
  | newest :: rest =>
    simp [accountTimes, ledger, hl, elapsedSum]
    rfl

theorem accountTimes_stop {k : Nat} {now : Duration} {record : Record} {ms : List Mark} (h : Faithful ms)
    (hk : k ∈ running ms) : accountTimes (.stop k now record :: ms) =
      Recorder.addNested record.elapsed (accountTimes ms).tail := by
  obtain ⟨newest, next, rest, hl⟩ := ledger_of_mem_running h hk
  cases rest with
  | nil => simp [accountTimes, ledger, hl, charge, Recorder.addNested]
  | cons account rest =>
    simp [accountTimes, ledger, hl, charge, Recorder.addNested, elapsedSum_append, elapsedSum_singleton, lifeOf,
      Life.elapsed]

theorem newest_accountTimes {k : Nat} {ms : List Mark} (h : Faithful ms) (hk : k ∈ running ms) :
    (accountTimes ms).head?.getD .zero = ⟨elapsedSum (newestAccount ms)⟩ := by
  obtain ⟨newest, next, rest, hl⟩ := ledger_of_mem_running h hk
  simp [accountTimes, newestAccount, hl]

namespace System

/-- What a state has to do with the marks of an invocation: its recorder holds the times of the accounts, its open timers
    were created as the marks say, and the marks are faithful. -/
structure Marked (i : Nat) (s : System) : Prop where
  pending : s.machine.pendingOf i = accountTimes (marksOf i s.past)
  open_ : ∀ (k : Nat) timer, s.timers[k]? = some (some timer) → timer.recorder = some i →
    k ∈ running (marksOf i s.past) ∧ startOf k (marksOf i s.past) = timer.start
  numbered : ∀ k ∈ started (marksOf i s.past), k < s.timers.length
  faithful : Faithful (marksOf i s.past)

theorem pendingOf_startTimer {m : Machine} {t : ThreadId} (hknown : ∀ r ∈ m.active t, r < m.recorders.length) (i : Nat)
    (origin : Origin) (now : Duration) : (m.startTimer t origin now).1.pendingOf i =
      if (m.active t).head? = some i then .zero :: m.pendingOf i else m.pendingOf i := by
  unfold Machine.startTimer
  split
  · rename_i hnone
    simp [hnone]
  · rename_i r hr
    have hlt := hknown r (List.mem_of_mem_head? hr)
    by_cases hi : r = i
    · subst hi
      simp [Machine.pendingOf, hr, List.getElem?_eq_getElem hlt]
    · simp [Machine.pendingOf, hr, hi, List.getElem?_modify_ne _ _ hi]

theorem pendingOf_stopTimer (m : Machine) (timer : Timer) (now : Duration) (i : Nat) :
    (m.stopTimer timer now).pendingOf i =
      if timer.recorder = some i then Recorder.addNested (now.sub timer.start) (m.pendingOf i).tail else m.pendingOf i := by
  cases hrec : m.recorders[i]? with
  | some rec =>
    rw [Machine.pendingOf, stopTimer_recorder hrec]
    split <;> simp [Machine.pendingOf, hrec, Recorder.finish]
  | none =>
    have hlength : m.recorders.length ≤ i := List.getElem?_eq_none_iff.mp hrec
    have hnone : (m.stopTimer timer now).recorders[i]? = none := by
      rw [List.getElem?_eq_none_iff, stopTimer_length]
      exact hlength
    simp [Machine.pendingOf, hrec, hnone, Recorder.addNested]

theorem pendingOf_close (m : Machine) (inv : Invocation) (i : Nat) : (m.close inv).pendingOf i = m.pendingOf i := by
  by_cases hi : inv.recorder = i
  · subst hi
    cases hrec : m.recorders[inv.recorder]? <;> simp [Machine.pendingOf, Machine.close, hrec]
  · simp [Machine.pendingOf, Machine.close, List.getElem?_modify_ne _ _ hi]

theorem pendingOf_newInvocation (m : Machine) (p : Profile) (now : Duration) (i : Nat) :
    (m.newInvocation p now).1.pendingOf i = m.pendingOf i := by
  simp only [Machine.pendingOf, Machine.newInvocation]
  rcases Nat.lt_trichotomy i m.recorders.length with hi | rfl | hi
  · rw [List.getElem?_append_left hi]
  · simp
  · rw [List.getElem?_eq_none (by simp; omega), List.getElem?_eq_none (by omega)]

theorem recordOf_nested (m : Machine) {timer : Timer} {i : Nat} (h : timer.recorder = some i) (now : Duration) :
    (m.recordOf timer now).nested = (m.pendingOf i).head?.getD .zero := by
  simp only [Machine.recordOf, Machine.pendingOf, h, Option.bind_some]

/-- A new timer is marked as a start where it runs inside the innermost entered invocation of its thread, and nowhere
    else. -/
theorem Marked.created {s : System} {i : Nat} (hs : Sound s) (hm : Marked i s) (t : ThreadId) (origin : Origin) (now : Duration) :
    Marked i { s with
      machine := (s.machine.startTimer t origin now).1
      timers := s.timers ++ [some (s.machine.startTimer t origin now).2]
      past := .created s.timers.length t origin now :: s.past } := by
  have hknown : ∀ r ∈ s.machine.active t, r < s.machine.recorders.length := by
    rw [hs.tracks t]
    exact hs.owns.known.active t
  have hpending := pendingOf_startTimer hknown i origin now
  rw [hs.tracks t, hm.pending] at hpending
  -- The new timer has a number that no mark carries yet.
  have hfresh : s.timers.length ∉ started (marksOf i s.past) := fun hk => Nat.lt_irrefl _ (hm.numbered _ hk)
  have hnumbered : ∀ k ∈ started (marksOf i s.past), k < s.timers.length + 1 := fun k hk =>
    Nat.lt_succ_of_lt (hm.numbered k hk)
  by_cases hi : (enteredOn t s.past).head? = some i
  · rw [if_pos hi] at hpending
    have hmarks : marksOf i (.created s.timers.length t origin now :: s.past) =
        .start s.timers.length now :: marksOf i s.past := by rw [marksOf_created, if_pos hi]
    refine ⟨?_, fun k timer hk hr => ?_, fun k hk => ?_, ?_⟩
    · rw [hpending, hmarks, accountTimes_start _ _ hm.faithful]
    · rw [hmarks]
      rcases alive_opened hk with hk | ⟨rfl, rfl⟩
      · obtain ⟨hrunning, hstart⟩ := hm.open_ k timer hk hr
        have hne : s.timers.length ≠ k := Nat.ne_of_gt (List.getElem?_eq_some_iff.mp hk).1
        exact ⟨List.mem_cons_of_mem _ hrunning, by rw [startOf, if_neg hne, hstart]⟩
      · exact ⟨List.mem_cons_self, by rw [startOf, if_pos rfl, startTimer_timer]⟩
    · rw [hmarks] at hk
      rcases List.mem_cons.mp hk with rfl | hk
      · simp
      · simpa using hnumbered k hk
    · rw [hmarks]
      exact ⟨hfresh, hm.faithful⟩
  · rw [if_neg hi] at hpending
    have hmarks : marksOf i (.created s.timers.length t origin now :: s.past) = marksOf i s.past := by
      rw [marksOf_created, if_neg hi]
    refine ⟨by rw [hpending, hmarks], fun k timer hk hr => ?_, by simpa [hmarks] using hnumbered, hmarks ▸ hm.faithful⟩
    rw [hmarks]
    rcases alive_opened hk with hk | ⟨rfl, rfl⟩
    · exact hm.open_ k timer hk hr
    · rw [startTimer_timer, hs.tracks t] at hr
      exact absurd hr hi

/-- A dropped timer is marked as a stop in the invocation it was created in, with what its recorder held for it. -/
theorem Marked.dropped {s : System} {i k : Nat} {timer : Timer} (hs : Sound s) (hm : Marked i s) (now : Duration)
    (alive : s.timers[k]? = some (some timer)) :
    Marked i { s with
      machine := s.machine.stopTimer timer now
      timers := s.timers.set k none
      past := .dropped k now (s.machine.recordOf timer now) :: s.past } := by
  have hpending := pendingOf_stopTimer s.machine timer now i
  have howner : timer.recorder = ownerOf k s.past := (hs.times k timer alive).1
  rw [hm.pending] at hpending
  by_cases hi : timer.recorder = some i
  · obtain ⟨hrunning, hstart⟩ := hm.open_ k timer alive hi
    have hmarks : marksOf i (.dropped k now (s.machine.recordOf timer now) :: s.past) =
        .stop k now (s.machine.recordOf timer now) :: marksOf i s.past := by
      rw [marksOf_dropped, if_pos (howner ▸ hi)]
    rw [if_pos hi] at hpending
    refine ⟨?_, fun j timer' hj hr => ?_, ?_, ?_⟩
    · rw [hpending, hmarks, accountTimes_stop hm.faithful hrunning]
      rfl
    · obtain ⟨hj, hne⟩ := alive_dropped hj
      obtain ⟨hrunning', hstart'⟩ := hm.open_ j timer' hj hr
      rw [hmarks]
      exact ⟨(List.mem_erase_of_ne hne).mpr hrunning', hstart'⟩
    · simpa [hmarks, started] using hm.numbered
    · rw [hmarks]
      refine ⟨hrunning, by rw [hstart]; rfl, ?_, hm.faithful⟩
      rw [recordOf_nested s.machine hi, hm.pending, newest_accountTimes hm.faithful hrunning]
  · have hmarks : marksOf i (.dropped k now (s.machine.recordOf timer now) :: s.past) = marksOf i s.past := by
      rw [marksOf_dropped, if_neg (howner ▸ hi)]
    rw [if_neg hi] at hpending
    refine ⟨by rw [hpending, hmarks], fun j timer' hj hr => ?_, by simpa [hmarks] using hm.numbered, hmarks ▸ hm.faithful⟩
    rw [hmarks]
    exact hm.open_ j timer' (alive_dropped hj).1 hr

theorem move_marked {s s' : System} {i : Nat} (h : Move s s') (hs : Sound s) (hm : Marked i s) : Marked i s' := by
  cases h with
  | book | entered | exited => exact ⟨hm.pending, hm.open_, hm.numbered, hm.faithful⟩
  | opened p now entered =>
    exact ⟨(pendingOf_newInvocation _ p now i).trans hm.pending, hm.open_, hm.numbered, hm.faithful⟩
  | created t origin now => exact hm.created hs t origin now
  | dropped now alive => exact hm.dropped hs now alive
  | @ended j inv now alive =>
    exact ⟨(pendingOf_close _ inv i).trans hm.pending, hm.open_, hm.numbered, hm.faithful⟩

/-- The marks that a run leaves are faithful. -/
theorem run_faithful (steps : List Step) (i : Nat) : Faithful (marksOf i (run steps).past) := by
  have hrun : Sound (run steps) ∧ Marked i (run steps) := by
    refine run_moves (motive := fun s => Sound s ∧ Marked i s) ⟨sound_empty, ?_⟩ (fun s s' h hs => ?_) steps
    · exact ⟨rfl, by simp, by simp [marksOf, started], trivial⟩
    · exact ⟨move_sound s s' h hs.1, move_marked h hs.1 hs.2⟩
  exact hrun.2.faithful

end System

end CallProbe.Profiler
