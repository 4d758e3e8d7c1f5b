import CallProbe.Proofs.Profiler.Lifetimes
import Mathlib.Algebra.Order.BigOperators.Group.List
import Mathlib.Algebra.Order.Group.Nat

/-! # Nested time

The time that a record calls nested is that of the newest account when its timer is dropped, and this is the account of
its own timer only if timers end in the order opposite to that in which they start. `run_nests` says what is on it in
every run, and that as long as no timer created before is dropped while a timer is open, nested time is at most the
time of the timers inside. `nested_of_older` is a run in which one is: the time of the older timer counts as nested in
the younger one, and nothing is left of the time of the younger one itself. -/

namespace CallProbe.Profiler

open Call Time Mark

/-- The marks before the end of a life. -/
def marksBefore (l : Life) (ms : List Mark) : List Mark := ms.drop (ms.length - l.died)

theorem marksBefore_eq {l : Life} {before ms : List Mark} (h : before <:+ ms) (hl : before.length = l.died) :
    marksBefore l ms = before := by
  rw [marksBefore, ← hl]
  exact (List.suffix_iff_eq_drop.mp h).symm

/-- The timers of an invocation whose whole lifetimes lie in that of one of them. -/
def insideOf (l : Life) (ms : List Mark) : List Life := (lives ms).filter (·.Inside l)

/-- What stands above the accounts and the open timers that were there when the timer `k` was created: as many accounts as
    open timers, `k` among these, and charged with timers that were created after it. -/
structure Above (earlier : List Mark) (k : Nat) (ms : List Mark) (accounts : List (List Life)) (opened : List Nat) : Prop where
  ledger : Mark.ledger ms = accounts ++ Mark.ledger earlier
  running : Mark.running ms = opened ++ Mark.running earlier
  length : accounts.length = opened.length
  mem : k ∈ opened
  born : ∀ account ∈ accounts, ∀ m ∈ account, earlier.length < m.born

section
variable {earlier ms : List Mark} {k j : Nat} {now : Duration} {accounts : List (List Life)} {opened : List Nat}

/-- The timer itself puts one empty account on top. -/
theorem Above.first (earlier : List Mark) (k : Nat) (now : Duration) : Above earlier k (.start k now :: earlier) [[]] [k] :=
  ⟨rfl, rfl, rfl, by simp, by simp⟩

theorem Above.started (h : Above earlier k ms accounts opened) (j : Nat) (now : Duration) :
    Above earlier k (.start j now :: ms) ([] :: accounts) (j :: opened) where
  ledger := by simp [Mark.ledger, h.ledger]
  running := by simp [Mark.running, h.running]
  length := by simp [h.length]
  mem := List.mem_cons_of_mem j h.mem
  born := by simpa using h.born

/-- A timer created after `k` ends: besides its own account there is one that its time is charged to, as `k` has one too. -/
theorem Above.stopped (h : Above earlier k ms accounts opened) {record : Record} (hopened : j ∈ opened) (hne : k ≠ j)
    (hborn : earlier.length < bornAt j ms) :
    ∃ accounts', Above earlier k (.stop j now record :: ms) accounts' (opened.erase j) := by
  have hmem : k ∈ opened.erase j := (List.mem_erase_of_ne hne).mpr h.mem
  have hpos : 0 < (opened.erase j).length := List.length_pos_of_mem hmem
  have hlength := h.length
  rw [List.length_erase_of_mem hopened] at hpos
  obtain _ | ⟨newest, _ | ⟨next, rest⟩⟩ := accounts
  · rw [← hlength] at hpos
    cases hpos
  · rw [← hlength] at hpos
    cases hpos
  · refine ⟨(next ++ [lifeOf j record ms]) :: rest, ?_, ?_, ?_, hmem, ?_⟩
    · simp [Mark.ledger, h.ledger, charge]
    · rw [Mark.running, h.running, List.erase_append_left _ hopened]
    · rw [List.length_erase_of_mem hopened, ← hlength]
      simp
    · intro account haccount m hm
      rcases List.mem_cons.mp haccount with rfl | haccount
      · rcases List.mem_append.mp hm with hm | hm
        · exact h.born next (by simp) m hm
        · rw [List.mem_singleton] at hm
          subst hm
          exact hborn
      · exact h.born account (by simp [haccount]) m hm

/-- A timer that ends while `k` is open was created after it, if no older one was dropped in between. -/
theorem born_of_stop (hf : Faithful ms) {record : Record} (hs : .start k now :: earlier <:+ ms) (hk : k ∈ running ms)
    (hj : j ∈ running ms) (hne : j ≠ k)
    (hold : (lifeOf j record ms).born < earlier.length → (lifeOf j record ms).died ≤ earlier.length) :
    earlier.length < bornAt j ms := by
  have hshort := hs.length_le
  rw [List.length_cons] at hshort
  simp only [lifeOf] at hold
  have hdiffers : bornAt j ms ≠ earlier.length := by
    rw [← bornAt_start hf hs]
    exact fun he => hne (bornAt_inj hf (mem_started_of_mem_running hj) (mem_started_of_mem_running hk) he)
  omega

/-- While a timer is open and no older one was dropped, what is charged above the accounts that were there when it was
    created are timers created after it. -/
theorem accounts_of_open (hf : Faithful ms) (hs : .start k now :: earlier <:+ ms) (hk : k ∈ running ms)
    (hold : ∀ m ∈ lives ms, m.born < earlier.length → m.died ≤ earlier.length) :
    ∃ accounts opened, Above earlier k ms accounts opened := by
  induction ms with
  | nil => exact absurd (List.suffix_nil.mp hs) (List.cons_ne_nil _ _)
  | cons mark ms ih =>
    rcases List.suffix_cons_iff.mp hs with heq | hms
    · -- The open timer is the newest mark.
      rw [← heq]
      exact ⟨_, _, .first earlier k now⟩
    cases mark with
    | start j now' =>
      have hne : k ≠ j := by
        rintro rfl
        exact hf.1 (mem_started_of_suffix hms List.mem_cons_self)
      obtain ⟨accounts, opened, habove⟩ := ih hf.2 hms ((List.mem_cons.mp hk).resolve_left hne) hold
      exact ⟨_, _, habove.started j now'⟩
    | stop j now' record =>
      obtain ⟨hrun, -, -, hf'⟩ := hf
      have hne : j ≠ k := by
        rintro rfl
        exact (List.Nodup.not_mem_erase (nodup_running hf')) hk
      have hk' : k ∈ running ms := List.mem_of_mem_erase hk
      have hcreated := born_of_stop hf' hms hk' hrun hne (hold (lifeOf j record ms) (by simp [lives]))
      obtain ⟨accounts, opened, habove⟩ := ih hf' hms hk' fun m hm => hold m (List.mem_append_left _ hm)
      -- An older timer would have been created before `k` was.
      have hopened : j ∈ opened := by
        rw [habove.running] at hrun
        refine (List.mem_append.mp hrun).resolve_right fun hj => ?_
        have hj' := mem_started_of_mem_running hj
        rw [bornAt_of_suffix hf' ((List.suffix_cons _ _).trans hms) hj'] at hcreated
        exact absurd (bornAt_lt hj') (by omega)
      obtain ⟨accounts', habove'⟩ := habove.stopped hopened hne.symm hcreated
      exact ⟨accounts', _, habove'⟩

end

/-- The newest account at the end of a life that no older one crosses holds lives inside it. -/
theorem newestAccount_inside {ms before : List Mark} (hf : Faithful ms) {k : Nat} {now : Duration} {record : Record}
    (hs : .stop k now record :: before <:+ ms)
    (hold : ∀ m ∈ lives ms, ¬ m.Crosses (lifeOf k record before)) :
    ∀ m ∈ newestAccount before, m.Inside (lifeOf k record before) := by
  have hbefore : before <:+ ms := (List.suffix_cons _ _).trans hs
  have hf' := hf.suffix hbefore
  obtain ⟨hrun, -⟩ := hf.suffix hs
  obtain ⟨start, earlier, hstart⟩ := exists_start (mem_started_of_mem_running hrun)
  have hborn := bornAt_start hf' hstart
  have hnone : ∀ m ∈ lives before, m.born < earlier.length → m.died ≤ earlier.length := by
    intro m hm hlt
    have hdied := died_lt hm
    have hnot := hold m ((lives_of_suffix hbefore).subset hm)
    simp only [Life.Crosses, lifeOf, hborn] at hnot
    omega
  obtain ⟨accounts, opened, hledger, -, hlength, hmem, haccounts⟩ := accounts_of_open hf' hstart hrun hnone
  have hpos := List.length_pos_of_mem hmem
  intro m hm
  cases accounts with
  | nil =>
    rw [← hlength] at hpos
    cases hpos
  | cons newest rest =>
    rw [newestAccount, hledger, List.cons_append, List.headD_cons] at hm
    refine ⟨?_, died_lt ((ledger_sublist newest (by simp [hledger])).subset hm)⟩
    rw [lifeOf, hborn]
    exact haccounts newest (by simp) m hm

theorem elapsedSum_le_of_sublist {ls ms : List Life} (h : ls.Sublist ms) : elapsedSum ls ≤ elapsedSum ms :=
  (h.map Life.elapsed).sum_le_sum fun _ _ => Nat.zero_le _

theorem newestAccount_sublist {ms : List Mark} (hf : Faithful ms) {k : Nat} (hk : k ∈ running ms) :
    (newestAccount ms).Sublist (lives ms) := by
  obtain ⟨newest, next, rest, hl⟩ := ledger_of_mem_running hf hk
  rw [newestAccount, hl]
  exact ledger_sublist newest (by simp [hl])

/-- Nested time is the time of the newest account, and at most that of the timers inside if none crosses. -/
theorem nested_of_faithful {ms : List Mark} (hf : Faithful ms) {l : Life} (hl : l ∈ lives ms) :
    l.record.nested.nanos = elapsedSum (newestAccount (marksBefore l ms)) ∧
    ((∀ m ∈ lives ms, ¬ m.Crosses l) → l.record.nested.nanos ≤ elapsedSum (insideOf l ms)) := by
  obtain ⟨now, before, hs, he⟩ := stop_of_mem_lives hl
  have hbefore : before <:+ ms := (List.suffix_cons _ _).trans hs
  obtain ⟨hrun, -, hnested, hf'⟩ := hf.suffix hs
  rw [marksBefore_eq hbefore (by rw [he]; rfl)]
  refine ⟨hnested, fun hcross => ?_⟩
  rw [he] at hcross
  have hinside := newestAccount_inside hf hs hcross
  have hfilter : (newestAccount before).filter (·.Inside l) = newestAccount before := by
    refine List.filter_eq_self.mpr fun m hm => ?_
    rw [he]
    exact decide_eq_true (hinside m hm)
  have hsub : (newestAccount before).Sublist (insideOf l ms) := by
    rw [← hfilter]
    exact ((newestAccount_sublist hf' hrun).trans (lives_of_suffix hbefore).sublist).filter _
  exact hnested ▸ elapsedSum_le_of_sublist hsub

namespace System

/-- Nested time in a report. Whatever the order in which timers start and end, the calls of a report are the lives of its
    timers, and nested time is that of the newest account. If no timer of the invocation that was open when a timer was
    created is dropped before that one, nested time is at most the time of the timers inside it, so that what is left is
    at least the time outside of these. -/
theorem run_nests (steps : List Step) {i : Nat} {now : Duration} {report : Report} {told : Option Outcome}
    {before : List Event} (h : .ended i now report told :: before <:+ (run steps).past) :
    report.calls = (lives (marksOf i before)).map Life.record ∧
    ∀ l ∈ lives (marksOf i before),
      l.record.nested.nanos = elapsedSum (newestAccount (marksBefore l (marksOf i before))) ∧
      ((∀ m ∈ lives (marksOf i before), ¬ m.Crosses l) →
        l.record.nested.nanos ≤ elapsedSum (insideOf l (marksOf i before)) ∧
        l.elapsed - elapsedSum (insideOf l (marksOf i before)) ≤ l.record.own.nanos) := by
  have hbefore : before <:+ (run steps).past := (List.suffix_cons _ _).trans h
  have hf := (run_faithful steps i).suffix (marksOf_suffix i hbefore)
  have hreport := ((run_sound steps).reports.accounted _ before h).1
  refine ⟨hreport.trans (recordsOf_eq i before), fun l hl => ?_⟩
  obtain ⟨hnested, hbound⟩ := nested_of_faithful hf hl
  refine ⟨hnested, fun hcross => ⟨hbound hcross, ?_⟩⟩
  have hle := hbound hcross
  simp only [Record.own, Duration.sub, Life.elapsed]
  omega

/-- The steps of an invocation with two timers, the older of which is dropped first. -/
def overlappingSteps : List Step :=
  [.start 0 ⟨"f", ⟨10⟩, true, true⟩ ⟨0⟩, .time 0 ⟨"a", "f", "lib.rs", 1, 1, 5, "a()"⟩ ⟨0⟩,
    .time 0 ⟨"b", "f", "lib.rs", 2, 2, 5, "b()"⟩ ⟨1⟩, .dropTimer 0 ⟨5⟩, .dropTimer 1 ⟨6⟩, .drop 0 0 ⟨7⟩]

/-- What had happened before the invocation was dropped. -/
def overlappingPast : List Event := (run overlappingSteps).past.drop 2

/-- No timer crosses the older one, although the younger one outlives it. -/
theorem run_nests_overlapping : ∃ l ∈ lives (marksOf 0 overlappingPast), l.timer = 0 ∧
    (∀ m ∈ lives (marksOf 0 overlappingPast), ¬ m.Crosses l) ∧
    l.record.nested.nanos ≤ elapsedSum (insideOf l (marksOf 0 overlappingPast)) := by
  have hended : ∃ now report told, .ended 0 now report told :: overlappingPast <:+ (run overlappingSteps).past :=
    ⟨_, _, _, List.suffix_cons _ _⟩
  obtain ⟨now, report, told, hended⟩ := hended
  let l : Life := ⟨0, 0, 2, ⟨⟨"a", "f", "lib.rs", 1, 1, 5, "a()"⟩, ⟨5⟩, ⟨0⟩⟩⟩
  have hl : l ∈ lives (marksOf 0 overlappingPast) := List.mem_cons_self
  have hcross : ∀ m ∈ lives (marksOf 0 overlappingPast), ¬ m.Crosses l := by decide
  exact ⟨l, hl, rfl, hcross, (((run_nests overlappingSteps hended).2 l hl).2 hcross).1⟩

/-- The older timer is not inside the younger one, but its time is nested there: nothing is left of the time of the
    younger one, none of which is covered. -/
theorem nested_of_older : ∃ now report told, .ended 0 now report told :: overlappingPast <:+ (run overlappingSteps).past ∧
    ∃ l ∈ lives (marksOf 0 overlappingPast), l.record ∈ report.calls ∧ insideOf l (marksOf 0 overlappingPast) = [] ∧
      ¬ l.record.nested.nanos ≤ elapsedSum (insideOf l (marksOf 0 overlappingPast)) ∧
      l.record.elapsed = ⟨5⟩ ∧ l.record.own = .zero := by
  refine ⟨_, _, _, List.suffix_cons _ _, ⟨1, 1, 3, ⟨⟨"b", "f", "lib.rs", 2, 2, 5, "b()"⟩, ⟨5⟩, ⟨5⟩⟩⟩, ?_, ?_, rfl, ?_, rfl, rfl⟩
  · exact List.mem_cons_of_mem _ List.mem_cons_self
  · exact List.mem_cons_of_mem _ List.mem_cons_self
  · decide

end System

end CallProbe.Profiler
