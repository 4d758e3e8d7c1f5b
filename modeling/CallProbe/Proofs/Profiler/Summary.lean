import CallProbe.Profiler.Report
import Mathlib.Data.List.Induction
import Mathlib.Data.List.Nodup
import Mathlib.Algebra.BigOperators.Group.List.Basic
import Mathlib.Algebra.Ring.Nat

/-! # Summaries

A summary adds calls up by name, one after the other in a list of running sums, and then sorts the sums. `tally` is
what the running sums are after any calls: the names in the order in which they first occur, each with the own time of
its calls. `sums_eq_tally` carries this from call to call, up to the first sum that is no duration. The sort keeps the
order of equal sums (`filter_mergeSort`), so `summarize_groups` can say exactly what a summary is, and when there is
none. -/

namespace CallProbe.Profiler

open Time

/-! ### Calls by name -/

/-- The names of calls, in the order in which they first occur. -/
def namesOf (calls : List Record) : List String := (calls.map Record.name).eraseDups

/-- The own time of the calls of a name together. -/
def ownOf (name : String) (calls : List Record) : Nat :=
  ((calls.filter fun call => call.name = name).map fun call => call.own.nanos).sum

/-- The place of the first call of a name. -/
def firstOf (name : String) (calls : List Record) : Nat := (calls.map Record.name).idxOf name

/-- What the running sums are after some calls. -/
def tally (calls : List Record) : List (String × Duration) := (namesOf calls).map fun name => (name, ⟨ownOf name calls⟩)

section
variable {calls : List Record} {call : Record} {name : String}

theorem mem_namesOf : name ∈ namesOf calls ↔ ∃ call ∈ calls, call.name = name := by
  rw [namesOf, List.mem_eraseDups, List.mem_map]

theorem namesOf_concat : namesOf (calls ++ [call]) =
    if call.name ∈ namesOf calls then namesOf calls else namesOf calls ++ [call.name] := by
  have hname : call.name ∈ namesOf calls ↔ call.name ∈ calls.map Record.name := List.mem_eraseDups
  simp only [hname]
  rw [namesOf, List.map_append, List.map_singleton, List.eraseDups_append, ← namesOf, List.removeAll]
  by_cases h : call.name ∈ calls.map Record.name
  · rw [if_pos h, List.filter_cons_of_neg (by simpa using h), List.filter_nil, List.eraseDups_nil, List.append_nil]
  · rw [if_neg h, List.filter_cons_of_pos (by simpa using h), List.filter_nil]
    rfl

theorem ownOf_concat : ownOf name (calls ++ [call]) =
    ownOf name calls + if call.name = name then call.own.nanos else 0 := by
  rw [ownOf, List.filter_append, List.map_append, List.sum_append, ← ownOf]
  by_cases h : call.name = name
  · simp [h]
  · simp [h]

theorem ownOf_concat_self : ownOf call.name (calls ++ [call]) = ownOf call.name calls + call.own.nanos := by
  rw [ownOf_concat, if_pos rfl]

theorem ownOf_concat_other (h : call.name ≠ name) : ownOf name (calls ++ [call]) = ownOf name calls := by
  rw [ownOf_concat, if_neg h, Nat.add_zero]

theorem ownOf_eq_zero (h : name ∉ namesOf calls) : ownOf name calls = 0 := by
  have hnone : calls.filter (fun call => call.name = name) = [] :=
    List.filter_eq_nil_iff.mpr fun call hcall hname => h (mem_namesOf.mpr ⟨call, hcall, of_decide_eq_true hname⟩)
  rw [ownOf, hnone]
  rfl

theorem ownOf_mono {before : List Record} (h : before <+: calls) : ownOf name before ≤ ownOf name calls := by
  obtain ⟨after, rfl⟩ := h
  rw [ownOf, ownOf, List.filter_append, List.map_append, List.sum_append]
  exact Nat.le_add_right _ _

/-- The names stand in the order of their first calls. -/
theorem namesOf_ordered (calls : List Record) :
    (namesOf calls).Pairwise fun a b => firstOf a calls < firstOf b calls := by
  induction calls using List.reverseRecOn with
  | nil => exact List.Pairwise.nil
  | append_singleton calls call ih =>
    have hkeep : ∀ a ∈ namesOf calls, firstOf a (calls ++ [call]) = firstOf a calls := by
      intro a ha
      rw [firstOf, List.map_append, List.idxOf_append_of_mem (List.mem_eraseDups.mp ha), firstOf]
    have hold : (namesOf calls).Pairwise fun a b => firstOf a (calls ++ [call]) < firstOf b (calls ++ [call]) :=
      ih.imp_of_mem fun ha hb hlt => by rwa [hkeep _ ha, hkeep _ hb]
    rw [namesOf_concat]
    by_cases h : call.name ∈ namesOf calls
    · rwa [if_pos h]
    · rw [if_neg h, List.pairwise_append]
      refine ⟨hold, List.pairwise_singleton _ _, fun a ha b hb => ?_⟩
      have hnew : call.name ∉ calls.map Record.name := fun hmem => h (List.mem_eraseDups.mpr hmem)
      rw [List.mem_singleton.mp hb, hkeep a ha, firstOf, firstOf, List.map_append, List.idxOf_append_of_notMem hnew]
      exact Nat.lt_of_lt_of_le (List.idxOf_lt_length_of_mem (List.mem_eraseDups.mp ha)) (Nat.le_add_right _ _)

theorem nodup_namesOf (calls : List Record) : (namesOf calls).Nodup := by
  refine (namesOf_ordered calls).imp fun hlt he => ?_
  rw [he] at hlt
  exact Nat.lt_irrefl _ hlt

/-- All calls are counted under some name, and under one only. -/
theorem sum_ownOf (calls : List Record) :
    ((namesOf calls).map fun name => ownOf name calls).sum = (calls.map fun call => call.own.nanos).sum := by
  induction calls using List.reverseRecOn with
  | nil => rfl
  | append_singleton calls call ih =>
    have hothers : ∀ names : List String, call.name ∉ names →
        (names.map fun name => ownOf name (calls ++ [call])) = names.map fun name => ownOf name calls := by
      intro names h
      refine List.map_congr_left fun name hname => ?_
      exact ownOf_concat_other fun he => h (he ▸ hname)
    rw [List.map_append, List.sum_append, ← ih, namesOf_concat]
    by_cases h : call.name ∈ namesOf calls
    · -- the name stands once among the names, so only one sum grows
      obtain ⟨before, after, hnames⟩ := List.append_of_mem h
      have hnodup := nodup_namesOf calls
      rw [hnames, List.nodup_middle, List.nodup_cons, List.mem_append, not_or] at hnodup
      rw [if_pos h, hnames, List.map_append, List.map_cons, hothers _ hnodup.1.1, hothers _ hnodup.1.2,
        ownOf_concat_self]
      simp only [List.map_append, List.map_cons, List.sum_append, List.sum_cons, List.map_nil, List.sum_nil]
      omega
    · rw [if_neg h, List.map_append, hothers _ h, List.map_singleton, ownOf_concat_self, ownOf_eq_zero h]
      simp

/-! ### Running sums -/

theorem addTo_new {d : Duration} {sums : List (String × Duration)} (h : name ∉ sums.map Prod.fst) :
    addTo name d sums = some (sums ++ [(name, d)]) := by
  induction sums with
  | nil => rfl
  | cons entry sums ih =>
    rw [List.map_cons, List.mem_cons, not_or] at h
    rw [addTo, if_neg (Ne.symm h.1), ih h.2]
    rfl

/-- The sum of a name that has one grows, if it stays a duration, and no other sum does. -/
theorem addTo_known {d : Duration} {f : String → Nat} {names : List String} (hn : names.Nodup) (h : name ∈ names) :
    addTo name d (names.map fun n => (n, ⟨f n⟩)) =
      if f name + d.nanos ≤ longest then some (names.map fun n => (n, ⟨if n = name then f n + d.nanos else f n⟩))
      else none := by
  induction names with
  | nil => cases h
  | cons n names ih =>
    obtain ⟨hnew, hn⟩ := List.nodup_cons.mp hn
    rw [List.map_cons, addTo]
    by_cases he : n = name
    · subst he
      have hrest : (names.map fun m => (m, (⟨if m = n then f m + d.nanos else f m⟩ : Duration))) =
          names.map fun m => (m, ⟨f m⟩) := by
        refine List.map_congr_left fun m hm => ?_
        have hne : m ≠ n := fun he => hnew (he ▸ hm)
        rw [if_neg hne]
      rw [if_pos rfl, List.map_cons, hrest, if_pos rfl, Duration.add?]
      split <;> rfl
    · have hmem : name ∈ names := (List.mem_cons.mp h).resolve_left (Ne.symm he)
      rw [if_neg he, ih hn hmem, List.map_cons, if_neg he]
      split <;> rfl

theorem map_fst_tally (calls : List Record) : (tally calls).map Prod.fst = namesOf calls := by
  rw [tally, List.map_map]
  exact List.map_id _

theorem addTo_tally : addTo call.name call.own (tally calls) =
    if call.name ∈ namesOf calls ∧ longest < ownOf call.name (calls ++ [call]) then none
    else some (tally (calls ++ [call])) := by
  by_cases h : call.name ∈ namesOf calls
  · have hsame : (namesOf calls).map (fun n => (n, (⟨if n = call.name then ownOf n calls + call.own.nanos else
        ownOf n calls⟩ : Duration))) = tally (calls ++ [call]) := by
      rw [tally, namesOf_concat, if_pos h]
      refine List.map_congr_left fun n _ => ?_
      rw [ownOf_concat]
      by_cases hn : n = call.name
      · rw [if_pos hn, if_pos hn.symm]
      · rw [if_neg hn, if_neg (Ne.symm hn), Nat.add_zero]
    rw [tally, addTo_known (nodup_namesOf calls) h, hsame, ownOf_concat_self]
    by_cases hfits : ownOf call.name calls + call.own.nanos ≤ longest
    · rw [if_pos hfits, if_neg fun hover => Nat.not_lt.mpr hfits hover.2]
    · rw [if_neg hfits, if_pos ⟨h, Nat.lt_of_not_le hfits⟩]
  · have hothers : (namesOf calls).map (fun name => (name, (⟨ownOf name (calls ++ [call])⟩ : Duration))) = tally calls := by
      refine List.map_congr_left fun n hn => ?_
      rw [ownOf_concat_other fun he => h (he ▸ hn)]
    have hnew : tally (calls ++ [call]) = tally calls ++ [(call.name, call.own)] := by
      rw [tally, namesOf_concat, if_neg h, List.map_append, hothers, List.map_singleton, ownOf_concat_self,
        ownOf_eq_zero h, Nat.zero_add]
    rw [addTo_new (map_fst_tally calls ▸ h), if_neg fun hover => h hover.1, hnew]

theorem sums_concat : sums (calls ++ [call]) = (sums calls).bind (addTo call.name call.own) := by
  rw [sums, List.foldlM_append, ← sums]
  simp only [List.foldlM_cons, List.foldlM_nil, bind_pure]
  rfl

theorem sums_eq_tally (h : ∀ name, ownOf name calls ≤ longest) : sums calls = some (tally calls) := by
  induction calls using List.reverseRecOn with
  | nil => rfl
  | append_singleton calls call ih =>
    have hbefore : ∀ name, ownOf name calls ≤ longest := fun name =>
      Nat.le_trans (ownOf_mono (List.prefix_append _ _)) (h name)
    rw [sums_concat, ih hbefore, Option.bind_some, addTo_tally, if_neg]
    exact fun hover => Nat.not_lt.mpr (h call.name) hover.2

/-- There are no sums if one of them is too long. -/
theorem sums_eq_none (hcalls : ∀ call ∈ calls, call.elapsed.nanos ≤ longest) (h : ∃ name, longest < ownOf name calls) :
    sums calls = none := by
  induction calls using List.reverseRecOn with
  | nil =>
    obtain ⟨name, hname⟩ := h
    exact absurd hname (Nat.not_lt_zero _)
  | append_singleton calls call ih =>
    have hbefore : ∀ c ∈ calls, c.elapsed.nanos ≤ longest := fun c hc => hcalls c (List.mem_append_left _ hc)
    rw [sums_concat]
    by_cases hover : ∃ name, longest < ownOf name calls
    · rw [ih hbefore hover, Option.bind_none]
    · have hfits : ∀ name, ownOf name calls ≤ longest := fun name => Nat.not_lt.mp fun hname => hover ⟨name, hname⟩
      obtain ⟨name, hname⟩ := h
      -- Only the sum of the last call can have become too long, and not by this call alone.
      have hlast : call.name = name := by
        by_contra hne
        rw [ownOf_concat_other hne] at hname
        exact Nat.not_lt.mpr (hfits name) hname
      subst hlast
      have hknown : call.name ∈ namesOf calls := by
        by_contra hnew
        rw [ownOf_concat_self, ownOf_eq_zero hnew, Nat.zero_add] at hname
        have hcall := hcalls call (by simp)
        simp only [Record.own, Duration.sub] at hname
        omega
      rw [sums_eq_tally hfits, Option.bind_some, addTo_tally, if_pos ⟨hknown, hname⟩]

end

/-! ### The sort -/

def longestFirst (a b : String × Duration) : Bool := decide (b.2.nanos ≤ a.2.nanos)

theorem longestFirst_trans (a b c : String × Duration) (hab : longestFirst a b = true) (hbc : longestFirst b c = true) :
    longestFirst a c = true :=
  decide_eq_true (Nat.le_trans (of_decide_eq_true hbc) (of_decide_eq_true hab))

theorem longestFirst_total (a b : String × Duration) : (longestFirst a b || longestFirst b a) = true := by
  simp only [longestFirst, Bool.or_eq_true, decide_eq_true_eq]
  exact Nat.le_total _ _

/-- The sort keeps the order of the entries with one duration. -/
theorem filter_mergeSort (d : Duration) (entries : List (String × Duration)) :
    (entries.mergeSort longestFirst).filter (fun e => e.2 = d) = entries.filter fun e => e.2 = d := by
  let same : List (String × Duration) := entries.filter fun e => e.2 = d
  have hequal : ∀ e ∈ same, e.2 = d := fun e he => of_decide_eq_true (List.mem_filter.mp he).2
  have hsorted : same.Pairwise fun a b => longestFirst a b = true := by
    refine List.pairwise_of_forall_mem_list fun a ha b hb => decide_eq_true ?_
    exact Nat.le_of_eq (by rw [hequal a ha, hequal b hb])
  have hsub : same.Sublist (entries.mergeSort longestFirst) :=
    List.sublist_mergeSort longestFirst_trans longestFirst_total hsorted List.filter_sublist
  have hall : same.filter (fun e => e.2 = d) = same :=
    List.filter_eq_self.mpr fun e he => decide_eq_true (hequal e he)
  have hfilter := hsub.filter fun e => e.2 = d
  rw [hall] at hfilter
  exact (hfilter.eq_of_length ((List.mergeSort_perm entries longestFirst).filter _).length_eq.symm).symm

/-- What a summary of calls is: an entry for each name, with the own time of its calls together, the longest first and
    of equal ones that whose name occurs first. -/
structure IsSummary (calls : List Record) (summary : List (String × Duration)) : Prop where
  names : ∀ name, name ∈ summary.map Prod.fst ↔ ∃ call ∈ calls, call.name = name
  once : (summary.map Prod.fst).Nodup
  sums : ∀ entry ∈ summary, entry.2.nanos = ownOf entry.1 calls
  ordered : summary.Pairwise fun a b =>
    b.2.nanos < a.2.nanos ∨ a.2 = b.2 ∧ firstOf a.1 calls < firstOf b.1 calls
  total : (summary.map fun entry => entry.2.nanos).sum = (calls.map fun call => call.own.nanos).sum

theorem tally_isSummary (calls : List Record) : IsSummary calls ((tally calls).mergeSort longestFirst) := by
  have hperm := List.mergeSort_perm (tally calls) longestFirst
  have hfirst : (tally calls).Pairwise fun a b => firstOf a.1 calls < firstOf b.1 calls := by
    rw [tally, List.pairwise_map]
    exact namesOf_ordered calls
  have hsorted := List.pairwise_mergeSort longestFirst_trans longestFirst_total (tally calls)
  refine ⟨fun name => ?_, ?_, fun entry hentry => ?_, ?_, ?_⟩
  · rw [(hperm.map Prod.fst).mem_iff, map_fst_tally, mem_namesOf]
  · rw [(hperm.map Prod.fst).nodup_iff, map_fst_tally]
    exact nodup_namesOf calls
  · obtain ⟨name, -, rfl⟩ := List.mem_map.mp (hperm.mem_iff.mp hentry)
    rfl
  · refine List.pairwise_iff_forall_sublist.mpr fun {a b} hab => ?_
    have hle : b.2.nanos ≤ a.2.nanos := of_decide_eq_true (List.pairwise_iff_forall_sublist.mp hsorted hab)
    rcases Nat.lt_or_eq_of_le hle with hlt | heq
    · exact .inl hlt
    · have hsame : b.2 = a.2 := congrArg Duration.mk heq
      -- Two equal entries stand as they stood before the sort.
      have hpair := hab.filter fun e => e.2 = a.2
      rw [filter_mergeSort, List.filter_eq_self.mpr (by simp [hsame])] at hpair
      exact .inr ⟨hsame.symm, List.pairwise_iff_forall_sublist.mp hfirst (hpair.trans List.filter_sublist)⟩
  · rw [(hperm.map fun entry => entry.2.nanos).sum_eq, ← sum_ownOf, tally, List.map_map]
    rfl

theorem summarize_eq (r : Report) : r.summarize = (sums r.calls).map fun sums => sums.mergeSort longestFirst := rfl

/-- Summaries. If the own time of the calls of each name together is a duration, then there is a summary, and it is
    one: no time is lost, and the order leaves no choice. If at some call the time of its name so far is none, there is
    no summary. -/
theorem summarize_groups (r : Report) :
    ((∀ name, ownOf name r.calls ≤ longest) → ∃ summary, r.summarize = some summary ∧ IsSummary r.calls summary) ∧
    ((∀ call ∈ r.calls, call.elapsed.nanos ≤ longest) →
      (∃ before name, before <+: r.calls ∧ longest < ownOf name before) → r.summarize = none) := by
  refine ⟨fun hfits => ?_, fun hcalls hover => ?_⟩
  · refine ⟨(tally r.calls).mergeSort longestFirst, ?_, tally_isSummary r.calls⟩
    rw [summarize_eq, sums_eq_tally hfits, Option.map_some]
  · -- Sums only grow, so that a time that is too long at some call is so at the end.
    obtain ⟨before, name, hbefore, hlong⟩ := hover
    have hname := Nat.lt_of_lt_of_le hlong (ownOf_mono hbefore)
    rw [summarize_eq, sums_eq_none hcalls ⟨name, hname⟩, Option.map_none]

/-- A report of four calls: two of `b`, which together take as long as that of `a`, and the longest between them. -/
def tiedReport : Report where
  function := "f"
  total := ⟨30⟩
  limit := ⟨10⟩
  outcome := .above
  calls := [⟨⟨"b", "f", "lib.rs", 1, 1, 1, "b()"⟩, ⟨4⟩, ⟨0⟩⟩, ⟨⟨"a", "f", "lib.rs", 2, 2, 1, "a(c())"⟩, ⟨9⟩, ⟨2⟩⟩,
    ⟨⟨"c", "f", "lib.rs", 2, 2, 3, "c()"⟩, ⟨8⟩, ⟨0⟩⟩, ⟨⟨"b", "f", "lib.rs", 3, 3, 1, "b()"⟩, ⟨3⟩, ⟨0⟩⟩]

/-- A report of two calls of one name that together take longer than any duration. -/
def overlongReport : Report where
  function := "f"
  total := ⟨30⟩
  limit := ⟨10⟩
  outcome := .above
  calls := [⟨⟨"a", "f", "lib.rs", 1, 1, 1, "a()"⟩, ⟨longest⟩, ⟨0⟩⟩, ⟨⟨"a", "f", "lib.rs", 2, 2, 1, "a()"⟩, ⟨1⟩, ⟨0⟩⟩]

theorem summarize_groups_tied :
    (∃ summary, tiedReport.summarize = some summary ∧ IsSummary tiedReport.calls summary) ∧
    overlongReport.summarize = none := by
  refine ⟨(summarize_groups tiedReport).1 fun name => ?_, (summarize_groups overlongReport).2 (by decide) ?_⟩
  · have hnamed : ∀ n ∈ namesOf tiedReport.calls, ownOf n tiedReport.calls ≤ longest := by decide
    by_cases h : name ∈ namesOf tiedReport.calls
    · exact hnamed name h
    · rw [ownOf_eq_zero h]
      exact Nat.zero_le _
  · exact ⟨overlongReport.calls, "a", List.prefix_rfl, by decide⟩

end CallProbe.Profiler
