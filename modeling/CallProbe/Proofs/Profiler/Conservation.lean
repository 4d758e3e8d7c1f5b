import CallProbe.Proofs.Profiler.Lifetimes

/-! # Conservation of time

If timers end in the order opposite to that in which they start, the accounts of a recorder are those of the open
timers, and each holds the timers directly inside. `ledger_eq_levels` says so. Then no time is lost and none is counted
twice: `run_conserves` says that nested time is that of the timers directly inside, that what is left of all timers of an
invocation together is the time of the outermost ones, and that the invocation took at least that long. -/

namespace CallProbe.Profiler

open Call Time Mark

/-- Every timer that ends is the newest of those that are open. -/
def Lifo : List Mark → Prop
  | [] => True
  | .start _ _ :: ms => Lifo ms
  | .stop k _ _ :: ms => (running ms).head? = some k ∧ Lifo ms

/-- A timer lies in another one, and in no third one that does. -/
def DirectlyInside (ls : List Life) (a b : Life) : Prop := a.Inside b ∧ ∀ m ∈ ls, m.Inside b → ¬ a.Inside m

/-- A timer lies in no other one. -/
def Outermost (ls : List Life) (a : Life) : Prop := ∀ m ∈ ls, ¬ a.Inside m

instance (ls : List Life) (a b : Life) : Decidable (DirectlyInside ls a b) := inferInstanceAs (Decidable (_ ∧ _))

instance (ls : List Life) (a : Life) : Decidable (Outermost ls a) := inferInstanceAs (Decidable (∀ m ∈ ls, _))

/-- The timers directly inside a timer. -/
def childrenOf (l : Life) (ms : List Mark) : List Life := (lives ms).filter (DirectlyInside (lives ms) · l)

/-- The timers that lie in no other one. -/
def outermost (ms : List Mark) : List Life := (lives ms).filter (Outermost (lives ms))

/-! ### Accounts by moments of creation -/

/-- The lives that began between two moments and lie in none that began after the first of them. -/
def between (ls : List Life) (lo hi : Nat) : List Life :=
  ls.filter fun m => lo ≤ m.born ∧ m.born < hi ∧ ∀ n ∈ ls, lo ≤ n.born → ¬ m.Inside n

/-- The lives between the moments given, the latest first, and those before them all. -/
def levels (ls : List Life) (hi : Nat) : List Nat → List (List Life)
  | [] => [between ls 0 hi]
  | b :: bs => between ls (b + 1) hi :: levels ls b bs

theorem between_append {ls : List Life} {l : Life} {lo hi : Nat} (hhi : hi ≤ l.born) :
    between (ls ++ [l]) lo hi = between ls lo hi := by
  have hnew : [l].filter (fun m => lo ≤ m.born ∧ m.born < hi ∧ ∀ n ∈ ls ++ [l], lo ≤ n.born → ¬ m.Inside n) = [] :=
    List.filter_eq_nil_iff.mpr fun m hm => by
      rw [List.mem_singleton.mp hm, decide_eq_true_eq]
      omega
  rw [between, List.filter_append, hnew, List.append_nil]
  refine List.filter_congr fun m _ => ?_
  simp only [List.mem_append, List.mem_singleton, decide_eq_decide]
  refine and_congr_right fun _ => and_congr_right fun hm => ?_
  refine ⟨fun h n hn => h n (.inl hn), fun h n hn => ?_⟩
  rcases hn with hn | rfl
  · exact h n hn
  · intro _ hinside
    have := hinside.1
    omega

theorem levels_append {ls : List Life} {l : Life} {hi : Nat} (hhi : hi ≤ l.born) {bs : List Nat}
    (hbs : ∀ b ∈ bs, b ≤ l.born) : levels (ls ++ [l]) hi bs = levels ls hi bs := by
  induction bs generalizing hi with
  | nil => rw [levels, levels, between_append hhi]
  | cons b bs ih =>
    rw [levels, levels, between_append hhi, ih (hbs b (by simp)) fun c hc => hbs c (by simp [hc])]

/-- A life that ends takes the place of those inside it. -/
theorem between_end {ls : List Life} {l : Life} (hborn : ∀ m ∈ ls, m.born ≠ l.born) (hdied : ∀ m ∈ ls, m.died < l.died)
    (hl : l.born ≤ l.died) {lo : Nat} (hlo : lo ≤ l.born) (hall : ∀ m ∈ ls, m.born ≤ l.died) :
    between (ls ++ [l]) lo (l.died + 1) = between ls lo l.born ++ [l] := by
  have hlast : [l].filter (fun m => lo ≤ m.born ∧ m.born < l.died + 1 ∧ ∀ n ∈ ls ++ [l], lo ≤ n.born → ¬ m.Inside n) =
      [l] := by
    refine List.filter_eq_self.mpr fun m hm => ?_
    simp only [List.mem_singleton.mp hm, decide_eq_true_eq, List.mem_append, List.mem_singleton]
    refine ⟨hlo, by omega, fun n hn _ hinside => ?_⟩
    rcases hn with hn | rfl
    · have := hdied n hn
      have := hinside.2
      omega
    · exact Nat.lt_irrefl _ hinside.1
  rw [between, List.filter_append, hlast]
  congr 1
  refine List.filter_congr fun m hm => ?_
  simp only [List.mem_append, List.mem_singleton, decide_eq_decide]
  have hne := hborn m hm
  have hle := hall m hm
  constructor
  · rintro ⟨hm1, -, hinside⟩
    have hnot := hinside l (.inr rfl) hlo
    have hend := hdied m hm
    refine ⟨hm1, ?_, fun n hn => hinside n (.inl hn)⟩
    simp only [Life.Inside] at hnot
    omega
  · rintro ⟨hm1, hm2, hinside⟩
    refine ⟨hm1, by omega, fun n hn => ?_⟩
    rcases hn with hn | rfl
    · exact hinside n hn
    · intro _ hin
      have := hin.1
      omega

/-! ### The accounts of the open timers -/

/-- The moments at which the open timers were created, the latest first. -/
def births (ms : List Mark) : List Nat := (running ms).map (bornAt · ms)

theorem bornAt_fresh {ms : List Mark} {j k : Nat} {now : Duration} (hk : k ∉ started ms) (hj : j ∈ running ms) :
    bornAt j (.start k now :: ms) = bornAt j ms := by
  have hne : k ≠ j := by
    rintro rfl
    exact hk (mem_started_of_mem_running hj)
  rw [bornAt, if_neg hne]

theorem births_start {ms : List Mark} {k : Nat} {now : Duration} (hk : k ∉ started ms) :
    births (.start k now :: ms) = ms.length :: births ms := by
  have hmap : (running ms).map (bornAt · (.start k now :: ms)) = births ms :=
    List.map_congr_left fun j hj => bornAt_fresh hk hj
  rw [births, running, List.map_cons, hmap, bornAt, if_pos rfl]

theorem births_lt {ms : List Mark} : ∀ b ∈ births ms, b < ms.length := by
  intro b hb
  obtain ⟨k, hk, rfl⟩ := List.mem_map.mp hb
  exact bornAt_lt (mem_started_of_mem_running hk)

theorem births_decrease {ms : List Mark} (hf : Faithful ms) : (births ms).Pairwise (· > ·) := by
  induction ms with
  | nil => exact List.Pairwise.nil
  | cons m ms ih =>
    cases m with
    | start k now =>
      rw [births_start hf.1]
      exact List.Pairwise.cons births_lt (ih hf.2)
    | stop k now record => exact (ih hf.2.2.2).sublist ((List.erase_sublist).map _)

theorem born_lt_died {ms : List Mark} (hf : Faithful ms) {l : Life} (hl : l ∈ lives ms) : l.born < l.died := by
  obtain ⟨now, before, hs, he⟩ := stop_of_mem_lives hl
  obtain ⟨hrun, -⟩ := hf.suffix hs
  rw [he]
  exact bornAt_lt (mem_started_of_mem_running hrun)

/-- A timer that has ended is not open. -/
theorem not_running_of_stop {ms before : List Mark} {k : Nat} {now : Duration} {record : Record} (hf : Faithful ms)
    (hs : .stop k now record :: before <:+ ms) : k ∉ running ms := by
  induction ms with
  | nil => exact absurd (List.suffix_nil.mp hs) (List.cons_ne_nil _ _)
  | cons m ms ih =>
    rcases List.suffix_cons_iff.mp hs with heq | hms
    · injection heq with hm htail
      subst hm htail
      exact (nodup_running hf.2.2.2).not_mem_erase
    · cases m with
      | start j now' =>
        have hstarted : k ∈ started ms :=
          mem_started_of_suffix ((List.suffix_cons _ _).trans hms) (mem_started_of_mem_running (hf.2.suffix hms).1)
        refine fun hk => (List.mem_cons.mp hk).elim ?_ (ih hf.2 hms)
        rintro rfl
        exact hf.1 hstarted
      | stop j now' record' => exact fun hk => ih hf.2.2.2 hms (List.mem_of_mem_erase hk)

/-- No timer that has ended was created together with an open one. -/
theorem born_ne {ms : List Mark} (hf : Faithful ms) {l : Life} (hl : l ∈ lives ms) {k : Nat} (hk : k ∈ running ms) :
    l.born ≠ bornAt k ms := by
  obtain ⟨now, before, hs, he⟩ := stop_of_mem_lives hl
  have hbefore : before <:+ ms := (List.suffix_cons _ _).trans hs
  have hstarted := mem_started_of_mem_running (hf.suffix hs).1
  intro heq
  have hsame : l.timer = k := by
    refine bornAt_inj hf (mem_started_of_suffix hbefore hstarted) (mem_started_of_mem_running hk) ?_
    rw [bornAt_of_suffix hf hbefore hstarted, ← heq, he]
    rfl
  subst hsame
  exact not_running_of_stop hf hs hk

/-- If timers end in the order opposite to that in which they start, the account of an open timer holds what is directly
    inside it so far, and the last account what is in no open timer. -/
theorem ledger_eq_levels {ms : List Mark} (hf : Faithful ms) (hl : Lifo ms) :
    ledger ms = levels (lives ms) ms.length (births ms) := by
  induction ms with
  | nil => rfl
  | cons m ms ih =>
    cases m with
    | start k now =>
      have hempty : between (lives ms) (ms.length + 1) (ms.length + 1) = [] :=
        List.filter_eq_nil_iff.mpr fun m _ => by
          simp only [decide_eq_true_eq]
          omega
      rw [ledger, births_start hf.1, levels, lives, ih hf.2 hl, List.length_cons, hempty]
    | stop k now record =>
      obtain ⟨hrun, -, -, hf'⟩ := hf
      obtain ⟨hhead, hl'⟩ := hl
      obtain ⟨rest, hrunning⟩ : ∃ rest, running ms = k :: rest := List.head?_eq_some_iff.mp hhead
      have hbirths : births ms = bornAt k ms :: rest.map (bornAt · ms) := by rw [births, hrunning, List.map_cons]
      have hbirths' : births (.stop k now record :: ms) = rest.map (bornAt · ms) := by
        rw [births, running, hrunning, List.erase_cons_head]
        rfl
      have hbelow : ∀ b ∈ rest.map (bornAt · ms), b < bornAt k ms := by
        have hdecrease := births_decrease hf'
        rw [hbirths, List.pairwise_cons] at hdecrease
        exact hdecrease.1
      let l := lifeOf k record ms
      have hborn : ∀ m ∈ lives ms, m.born ≠ l.born := fun m hm => born_ne hf' hm hrun
      have hdied : ∀ m ∈ lives ms, m.died < l.died := fun m hm => died_lt hm
      have hlt : l.born ≤ l.died := Nat.le_of_lt (bornAt_lt (mem_started_of_mem_running hrun))
      have hall : ∀ m ∈ lives ms, m.born ≤ l.died := fun m hm =>
        Nat.le_of_lt (Nat.lt_trans (born_lt_died hf' hm) (died_lt hm))
      rw [ledger, lives, ih hf' hl', hbirths, hbirths', levels, List.tail_cons]
      -- The account of the timer is closed, and the one below gets its life.
      cases hbs : rest.map (bornAt · ms) with
      | nil =>
        rw [levels, levels, charge]
        exact congrArg (· :: []) (between_end hborn hdied hlt (Nat.zero_le _) hall).symm
      | cons b bs =>
        rw [hbs] at hbelow
        have hb := hbelow b (by simp)
        rw [levels, levels, charge, levels_append (Nat.le_of_lt hb) fun c hc => Nat.le_of_lt (hbelow c (by simp [hc]))]
        exact congrArg (· :: _) (between_end hborn hdied hlt hb hall).symm

/-- What was not over at a moment ended after it. -/
theorem died_of_later {ms before : List Mark} {later : List Life} (hs : before <:+ ms)
    (h : lives before ++ later = lives ms) : ∀ l ∈ later, before.length ≤ l.died := by
  induction ms generalizing later with
  | nil =>
    rw [List.suffix_nil.mp hs] at h
    intro l hl
    rw [List.append_right_eq_self.mp h] at hl
    cases hl
  | cons m ms ih =>
    rcases List.suffix_cons_iff.mp hs with rfl | hms
    · intro l hl
      rw [List.append_right_eq_self.mp h] at hl
      cases hl
    · obtain ⟨since, hsince⟩ := lives_of_suffix hms
      have hlater := ih hms hsince
      cases m with
      | start k now =>
        rw [lives, ← hsince] at h
        rw [List.append_cancel_left h]
        exact hlater
      | stop k now record =>
        rw [lives, ← hsince, List.append_assoc] at h
        rw [List.append_cancel_left h]
        intro l hl
        rcases List.mem_append.mp hl with hl | hl
        · exact hlater l hl
        · rw [List.mem_singleton.mp hl]
          exact hms.length_le

/-- What is directly inside a timer when it ends stays what is directly inside it. -/
theorem newestAccount_eq_childrenOf {ms before : List Mark} (hf : Faithful ms) {k : Nat} {now : Duration}
    {record : Record} (hs : .stop k now record :: before <:+ ms) (hl : Lifo (.stop k now record :: before)) :
    newestAccount before = childrenOf (lifeOf k record before) ms := by
  obtain ⟨hrun, -, -, hf'⟩ := hf.suffix hs
  obtain ⟨hhead, hl'⟩ := hl
  obtain ⟨rest, hrunning⟩ : ∃ rest, running before = k :: rest := List.head?_eq_some_iff.mp hhead
  have hbirths : births before = bornAt k before :: rest.map (bornAt · before) := by
    rw [births, hrunning, List.map_cons]
  have hbefore : before <:+ ms := (List.suffix_cons _ _).trans hs
  obtain ⟨later, hlater⟩ := lives_of_suffix hbefore
  have hend := died_of_later hbefore hlater
  have hnone : later.filter (DirectlyInside (lives before ++ later) · (lifeOf k record before)) = [] := by
    refine List.filter_eq_nil_iff.mpr fun m hm hinside => ?_
    exact Nat.not_lt_of_le (hend m hm) (of_decide_eq_true hinside).1.2
  rw [newestAccount, ledger_eq_levels hf' hl', hbirths, levels, List.headD_cons, childrenOf, ← hlater, List.filter_append,
    hnone, List.append_nil]
  refine List.filter_congr fun m hm => decide_eq_decide.mpr ?_
  have hdied := died_lt hm
  have hborn := Nat.lt_trans (born_lt_died hf' hm) hdied
  simp only [DirectlyInside, Life.Inside, lifeOf]
  constructor
  · rintro ⟨hm1, -, hinside⟩
    refine ⟨⟨by omega, hdied⟩, fun n hn hn' => ?_⟩
    rcases List.mem_append.mp hn with hn | hn
    · exact hinside n hn (by omega)
    · exact absurd hn'.2 (Nat.not_lt_of_le (hend n hn))
  · rintro ⟨⟨hm1, -⟩, hinside⟩
    refine ⟨by omega, hborn, fun n hn hn' => ?_⟩
    exact hinside n (List.mem_append_left _ hn) ⟨by omega, died_lt hn⟩

/-- When no timer is open, the last account holds the outermost timers. -/
theorem ledger_eq_outermost {ms : List Mark} (hf : Faithful ms) (hl : Lifo ms) (hdone : running ms = []) :
    ledger ms = [outermost ms] := by
  have hbirths : births ms = [] := by rw [births, hdone, List.map_nil]
  rw [ledger_eq_levels hf hl, hbirths, levels]
  refine congrArg (· :: []) (List.filter_congr fun m hm => decide_eq_decide.mpr ?_)
  have hborn := Nat.lt_trans (born_lt_died hf hm) (died_lt hm)
  simp only [Nat.zero_le, true_and, hborn, forall_const, Outermost]

/-! ### Time -/

def Mark.now : Mark → Duration
  | .start _ now => now
  | .stop _ now _ => now

/-- The times of the marks, newest first, and that before them all. -/
def clock (opened : Duration) (ms : List Mark) : List Nat := ms.map (fun m => m.now.nanos) ++ [opened.nanos]

/-- The times at which the open timers were created, newest first, and that before them all. -/
def starts (opened : Duration) (ms : List Mark) : List Nat := (running ms).map (fun k => (startOf k ms).nanos) ++ [opened.nanos]

/-- Each account fits between the time it was opened and that of the one above, and the first ends by a time given. -/
def Fits : Nat → List Nat → List (List Life) → Prop
  | _, [], [] => True
  | limit, since :: rest, account :: accounts => since + elapsedSum account ≤ limit ∧ Fits since rest accounts
  | _, _, _ => False

theorem starts_start {opened now : Duration} {ms : List Mark} {k : Nat} (hk : k ∉ started ms) :
    starts opened (.start k now :: ms) = now.nanos :: starts opened ms := by
  have hmap : (running ms).map (fun j => (startOf j (.start k now :: ms)).nanos) =
      (running ms).map (fun j => (startOf j ms).nanos) := by
    refine List.map_congr_left fun j hj => ?_
    have hne : k ≠ j := by
      rintro rfl
      exact hk (mem_started_of_mem_running hj)
    rw [startOf, if_neg hne]
  rw [starts, running, List.map_cons, hmap, startOf, if_pos rfl]
  rfl

/-- If the clock does not go back, the time of the timers on an account is less than that for which it was open. -/
theorem fits_ledger {opened : Duration} {ms : List Mark} (hf : Faithful ms) (hl : Lifo ms)
    (hclock : (clock opened ms).Pairwise (· ≥ ·)) {limit : Nat} (hlimit : ∀ t ∈ clock opened ms, t ≤ limit) :
    Fits limit (starts opened ms) (ledger ms) := by
  induction ms generalizing limit with
  | nil => exact ⟨hlimit opened.nanos (by simp [clock]), trivial⟩
  | cons m ms ih =>
    obtain ⟨hnewest, hclock'⟩ := List.pairwise_cons.mp hclock
    have hlast : m.now.nanos ≤ limit := hlimit _ List.mem_cons_self
    cases m with
    | start k now =>
      rw [starts_start hf.1, ledger]
      exact ⟨hlast, ih hf.2 hl hclock' hnewest⟩
    | stop k now record =>
      obtain ⟨hrun, helapsed, -, hf'⟩ := hf
      obtain ⟨hhead, hl'⟩ := hl
      obtain ⟨rest, hrunning⟩ : ∃ rest, running ms = k :: rest := List.head?_eq_some_iff.mp hhead
      obtain ⟨newest, next, accounts, hledger⟩ := ledger_of_mem_running hf' hrun
      have hfits := ih hf' hl' hclock' hnewest
      have hstarts : starts opened (.stop k now record :: ms) = rest.map (fun j => (startOf j ms).nanos) ++ [opened.nanos] := by
        rw [starts, running, hrunning, List.erase_cons_head]
        rfl
      rw [starts, hrunning, List.map_cons, List.cons_append, hledger] at hfits
      rw [hstarts, ledger, hledger, List.tail_cons, charge]
      -- The time of the timer that ends fills what is left between its start and now.
      cases hs : rest.map (fun j => (startOf j ms).nanos) ++ [opened.nanos] with
      | nil => simp at hs
      | cons since older =>
        rw [hs] at hfits
        obtain ⟨hopen, hnext, hrest⟩ := hfits
        refine ⟨?_, hrest⟩
        rw [elapsedSum_append, elapsedSum_singleton]
        simp only [lifeOf, Life.elapsed, helapsed, Duration.sub, Mark.now] at hopen hlast ⊢
        omega

/-- When a timer ends, the time on its account is at most the time since it was created. -/
theorem nested_le_elapsed {opened : Duration} {ms : List Mark} {k : Nat} {now : Duration} {record : Record}
    (hf : Faithful (.stop k now record :: ms)) (hl : Lifo (.stop k now record :: ms))
    (hclock : (clock opened (.stop k now record :: ms)).Pairwise (· ≥ ·)) : record.nested.nanos ≤ record.elapsed.nanos := by
  obtain ⟨hrun, helapsed, hnested, hf'⟩ := hf
  obtain ⟨hhead, hl'⟩ := hl
  obtain ⟨rest, hrunning⟩ : ∃ rest, running ms = k :: rest := List.head?_eq_some_iff.mp hhead
  obtain ⟨newest, next, accounts, hledger⟩ := ledger_of_mem_running hf' hrun
  obtain ⟨hnewest, hclock'⟩ := List.pairwise_cons.mp hclock
  have hfits := fits_ledger hf' hl' hclock' hnewest
  rw [starts, hrunning, List.map_cons, List.cons_append, hledger] at hfits
  have hopen := hfits.1
  rw [hnested, helapsed, newestAccount, hledger, List.headD_cons]
  simp only [Duration.sub, Mark.now] at hopen ⊢
  omega

/-- The time left of some timers when that of the ones inside is taken off. -/
def ownSum (ls : List Life) : Nat := (ls.map fun l => l.record.own.nanos).sum

def ledgerSum (accounts : List (List Life)) : Nat := (accounts.map elapsedSum).sum

/-- No time is lost: what is left of the timers that ended is what is on the accounts. -/
theorem ownSum_eq_ledgerSum {opened : Duration} {ms : List Mark} (hf : Faithful ms) (hl : Lifo ms)
    (hclock : (clock opened ms).Pairwise (· ≥ ·)) : ownSum (lives ms) = ledgerSum (ledger ms) := by
  induction ms with
  | nil => rfl
  | cons m ms ih =>
    have hclock' := (List.pairwise_cons.mp hclock).2
    cases m with
    | start k now =>
      have hsame := ih hf.2 hl hclock'
      simpa [ownSum, ledgerSum, lives, ledger, elapsedSum] using hsame
    | stop k now record =>
      have hle := nested_le_elapsed hf hl hclock
      obtain ⟨hrun, -, hnested, hf'⟩ := hf
      have hsame := ih hf' hl.2 hclock'
      obtain ⟨newest, next, accounts, hledger⟩ := ledger_of_mem_running hf' hrun
      rw [newestAccount, hledger, List.headD_cons] at hnested
      simp only [ownSum, ledgerSum, hledger, List.map_cons, List.sum_cons] at hsame
      simp only [ownSum, ledgerSum, lives, ledger, hledger, List.tail_cons, charge, List.map_append, List.map_cons,
        List.map_nil, List.sum_append, List.sum_cons, List.sum_nil, elapsedSum_append, elapsedSum_singleton, hsame]
      simp only [lifeOf, Record.own, Duration.sub, Life.elapsed]
      omega

theorem Lifo.suffix {ms ns : List Mark} (h : Lifo ns) (hs : ms <:+ ns) : Lifo ms := by
  induction ns with
  | nil =>
    rw [List.suffix_nil.mp hs]
    exact h
  | cons m ns ih =>
    rcases List.suffix_cons_iff.mp hs with rfl | hns
    · exact h
    · cases m with
      | start k now => exact ih h hns
      | stop k now record => exact ih h.2 hns

theorem clock_suffix (opened : Duration) {ms ns : List Mark} (h : ms <:+ ns) : clock opened ms <:+ clock opened ns := by
  obtain ⟨later, rfl⟩ := h
  simp [clock]

/-- The time of every timer is divided between it and the timers directly inside it. -/
theorem nested_of_lifo {opened : Duration} {ms : List Mark} (hf : Faithful ms) (hl : Lifo ms)
    (hclock : (clock opened ms).Pairwise (· ≥ ·)) {l : Life} (hmem : l ∈ lives ms) :
    l.record.nested.nanos = elapsedSum (childrenOf l ms) ∧ l.record.nested.nanos ≤ l.elapsed := by
  obtain ⟨now, before, hs, he⟩ := stop_of_mem_lives hmem
  have hfend := hf.suffix hs
  have hlend := hl.suffix hs
  have hnewest := newestAccount_eq_childrenOf hf hs hlend
  rw [← he] at hnewest
  exact ⟨hnewest ▸ hfend.2.2.1, nested_le_elapsed hfend hlend (hclock.sublist (clock_suffix opened hs).sublist)⟩

/-! ### The clock of a run -/

/-- The time at which something happened, if it reads the clock. -/
def Event.now? : Event → Option Duration
  | .opened _ _ now => some now
  | .created _ _ _ now => some now
  | .dropped _ now _ => some now
  | .ended _ now _ _ => some now
  | .entered _ _ | .exited _ _ => none

/-- The times that were read, newest first. -/
def timesOf (past : List Event) : List Nat := past.filterMap fun e => e.now?.map Duration.nanos

theorem timesOf_of_some {e : Event} {now : Duration} (h : e.now? = some now) (past : List Event) :
    timesOf (e :: past) = now.nanos :: timesOf past :=
  List.filterMap_cons_some (by rw [h, Option.map_some])

theorem timesOf_of_none {e : Event} (h : e.now? = none) (past : List Event) : timesOf (e :: past) = timesOf past :=
  List.filterMap_cons_none (by rw [h, Option.map_none])

theorem timesOf_suffix {before past : List Event} (h : before <:+ past) : timesOf before <:+ timesOf past := by
  obtain ⟨later, rfl⟩ := h
  simp [timesOf]

namespace System

/-- An invocation has no marks before it is opened. -/
structure Begins (s : System) : Prop where
  unmarked : ∀ i, s.invocations.length ≤ i → marksOf i s.past = []
  opened : ∀ i profile time before, .opened i profile time :: before <:+ s.past → marksOf i before = []

theorem move_begins {s s' : System} (h : Move s s') (ho : Owns s) (hb : Begins s) : Begins s' := by
  -- An event that opens no invocation is not the opening of one.
  have hopened : ∀ e : Event, (∀ i profile time, e ≠ .opened i profile time) →
      ∀ i profile time before, .opened i profile time :: before <:+ e :: s.past → marksOf i before = [] := by
    intro e hne i profile time before hbefore
    rcases suffix_past hbefore with ⟨heq, -⟩ | hbefore
    · exact absurd heq.symm (hne i profile time)
    · exact hb.opened i profile time before hbefore
  have hknown := ho.known
  rw [ho.made] at hknown
  cases h with
  | book => exact ⟨hb.unmarked, hb.opened⟩
  | opened p now entered =>
    refine ⟨fun i hi => hb.unmarked i (by simp at hi; omega), fun i profile time before hbefore => ?_⟩
    rcases suffix_past hbefore with ⟨heq, rfl⟩ | hbefore
    · injection heq with hi
      exact hb.unmarked i (by omega)
    · exact hb.opened i profile time before hbefore
  | entered => exact ⟨hb.unmarked, hopened _ (by simp)⟩
  | exited => exact ⟨hb.unmarked, hopened _ (by simp)⟩
  | created t origin now =>
    refine ⟨fun i hi => ?_, hopened _ (by simp)⟩
    have hother : (enteredOn t s.past).head? ≠ some i := fun hhead =>
      Nat.not_lt_of_le hi (hknown.active t i (List.mem_of_mem_head? hhead))
    rw [marksOf_created, if_neg hother]
    exact hb.unmarked i hi
  | @dropped k timer now alive =>
    refine ⟨fun i hi => ?_, hopened _ (by simp)⟩
    have hother : ownerOf k s.past ≠ some i := fun howner => Nat.not_lt_of_le hi (hknown.owners k i howner)
    rw [marksOf_dropped, if_neg hother]
    exact hb.unmarked i hi
  | ended => exact ⟨fun i hi => hb.unmarked i (by simpa using hi), hopened _ (by simp)⟩

theorem run_begins (steps : List Step) : Begins (run steps) := by
  have hrun : Sound (run steps) ∧ Begins (run steps) := by
    refine run_moves (motive := fun s => Sound s ∧ Begins s) ⟨sound_empty, ?_⟩ (fun s s' h hs => ?_) steps
    · exact ⟨fun _ _ => rfl, by simp⟩
    · exact ⟨move_sound s s' h hs.1, move_begins h hs.1.owns hs.2⟩
  exact hrun.2

end System

/-- The clock of an invocation shows times of the run. -/
theorem clock_sublist {i : Nat} {profile : Profile} {opened : Duration} {past : List Event}
    (hopened : .opened i profile opened ∈ past)
    (hfirst : ∀ before, .opened i profile opened :: before <:+ past → marksOf i before = []) :
    (clock opened (marksOf i past)).Sublist (timesOf past) := by
  induction past with
  | nil => cases hopened
  | cons e past ih =>
    rcases List.mem_cons.mp hopened with rfl | hopened
    · have hnone : marksOf i (.opened i profile opened :: past) = [] := hfirst past List.suffix_rfl
      rw [hnone, timesOf_of_some rfl]
      exact (List.nil_sublist _).cons_cons _
    · have hpast := ih hopened fun before hbefore => hfirst before (hbefore.trans (List.suffix_cons _ _))
      cases e with
      | created k t origin now =>
        rw [marksOf_created, timesOf_of_some rfl]
        split
        · exact hpast.cons_cons _
        · exact hpast.cons _
      | dropped k now record =>
        rw [marksOf_dropped, timesOf_of_some rfl]
        split
        · exact hpast.cons_cons _
        · exact hpast.cons _
      | opened =>
        rw [timesOf_of_some rfl]
        exact hpast.cons _
      | ended =>
        rw [timesOf_of_some rfl]
        exact hpast.cons _
      | entered =>
        rw [timesOf_of_none rfl]
        exact hpast
      | exited =>
        rw [timesOf_of_none rfl]
        exact hpast

namespace System

/-- Conservation of time. If the clock does not go back, and the timers of an invocation are dropped in the order opposite
    to that of their creation and all before the invocation, then nested time is the time of the timers directly inside
    and at most the time of the timer itself; what is left of all timers together is the time of the outermost ones, and
    the invocation took at least that long. -/
theorem run_conserves (steps : List Step) (hclock : (timesOf (run steps).past).Pairwise (· ≥ ·)) {i : Nat} {now : Duration}
    {report : Report} {told : Option Outcome} {before : List Event}
    (h : .ended i now report told :: before <:+ (run steps).past) (hlifo : Lifo (marksOf i before))
    (hdone : running (marksOf i before) = []) :
    report.calls = (lives (marksOf i before)).map Life.record ∧
    (∀ l ∈ lives (marksOf i before), l.record.nested.nanos = elapsedSum (childrenOf l (marksOf i before)) ∧
      l.record.nested.nanos ≤ l.record.elapsed.nanos) ∧
    (report.calls.map fun record => record.own.nanos).sum = elapsedSum (outermost (marksOf i before)) ∧
    elapsedSum (outermost (marksOf i before)) ≤ report.total.nanos := by
  have hbefore : before <:+ (run steps).past := (List.suffix_cons _ _).trans h
  have hf := (run_faithful steps i).suffix (marksOf_suffix i hbefore)
  obtain ⟨hcalls, profile, opened, hopened, htells⟩ := (run_sound steps).reports.accounted _ before h
  -- The marks of the invocation were made while it was open, so their times lie between its start and now.
  have hsub := clock_sublist hopened fun b hb => (run_begins steps).opened i profile opened b (hb.trans hbefore)
  have htimes := hclock.sublist (timesOf_suffix h).sublist
  rw [timesOf_of_some rfl] at htimes
  obtain ⟨hnow, hpast⟩ := List.pairwise_cons.mp htimes
  have hmarks := hpast.sublist hsub
  -- All its timers are dropped, so the outermost account is the only one left.
  have hledger := ledger_eq_outermost hf hlifo hdone
  rw [recordsOf_eq] at hcalls
  refine ⟨hcalls, fun l hl => nested_of_lifo hf hlifo hmarks hl, ?_, ?_⟩
  · have hsum := ownSum_eq_ledgerSum hf hlifo hmarks
    rw [hledger] at hsum
    rw [hcalls, List.map_map]
    simpa [ownSum, ledgerSum, Function.comp_def] using hsum
  · have hfits := fits_ledger hf hlifo hmarks fun t ht => hnow t (hsub.subset ht)
    rw [starts, hdone, hledger] at hfits
    have htotal := hfits.1
    rw [htells.took]
    simp only [Duration.sub] at htotal ⊢
    omega

/-- The steps of an invocation that makes two calls one after the other, the first with two calls inside and the first of
    these with one more. -/
def nestedSteps : List Step :=
  [.start 0 ⟨"f", ⟨10⟩, true, true⟩ ⟨0⟩, .time 0 ⟨"a", "f", "lib.rs", 1, 1, 5, "a(b(c()), d())"⟩ ⟨1⟩,
    .time 0 ⟨"b", "f", "lib.rs", 1, 1, 7, "b(c())"⟩ ⟨2⟩, .time 0 ⟨"c", "f", "lib.rs", 1, 1, 9, "c()"⟩ ⟨3⟩, .dropTimer 2 ⟨5⟩,
    .dropTimer 1 ⟨8⟩, .time 0 ⟨"d", "f", "lib.rs", 1, 1, 15, "d()"⟩ ⟨8⟩, .dropTimer 3 ⟨12⟩, .dropTimer 0 ⟨13⟩,
    .time 0 ⟨"e", "f", "lib.rs", 2, 2, 5, "e()"⟩ ⟨14⟩, .dropTimer 4 ⟨15⟩, .drop 0 0 ⟨20⟩]

/-- What had happened before the invocation was dropped. -/
def nestedPast : List Event := (run nestedSteps).past.drop 2

/-- Of twenty nanoseconds, twelve pass in the first call and one in the last; the first two calls divide theirs. -/
theorem run_conserves_nested : ∃ now report told, .ended 0 now report told :: nestedPast <:+ (run nestedSteps).past ∧
    (report.calls.map fun record => record.own.nanos) = [2, 4, 4, 2, 1] ∧
    (report.calls.map fun record => record.own.nanos).sum = elapsedSum (outermost (marksOf 0 nestedPast)) ∧
    elapsedSum (outermost (marksOf 0 nestedPast)) = 13 ∧
    elapsedSum (outermost (marksOf 0 nestedPast)) ≤ report.total.nanos := by
  have hclock : (timesOf (run nestedSteps).past).Pairwise (· ≥ ·) := by decide
  have hlifo : Lifo (marksOf 0 nestedPast) := ⟨rfl, rfl, rfl, rfl, rfl, trivial⟩
  have hended : ∃ now report told, .ended 0 now report told :: nestedPast <:+ (run nestedSteps).past ∧
      (report.calls.map fun record => record.own.nanos) = [2, 4, 4, 2, 1] := ⟨_, _, _, List.suffix_cons _ _, rfl⟩
  obtain ⟨now, report, told, hended, howns⟩ := hended
  obtain ⟨-, -, hsum, htotal⟩ := run_conserves nestedSteps hclock hended hlifo rfl
  exact ⟨now, report, told, hended, howns, hsum, by decide, htotal⟩

end System

end CallProbe.Profiler
