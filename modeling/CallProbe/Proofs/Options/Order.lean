import CallProbe.Proofs.Options.Written
import Mathlib.Data.List.Nodup

/-! # The order of options

Each option can be set once, and what the settings so far say of one option does not depend on the others (`find?_set`). So
options that are all set say the same in any order, and whether there is a plan can be told from which options are given and
from their values (`Acceptable`). -/

namespace CallProbe.Probe

open Source Call Time

/-! ### Settings by name -/

/-- The option that a setting is for. -/
def Setting.name : Setting → OptionName
  | .ignorePrelude _ => .ignorePrelude
  | .blacklist _ => .blacklist
  | .whitelist _ => .whitelist
  | .details _ => .details
  | .wrapper _ => .wrapper
  | .timeLimit _ => .timeLimit
  | .below _ => .below
  | .above _ => .above

namespace Settings

variable {s s' t : Settings} {pos : Pos} {v : Setting}

/-- The setting for an option, if it has been made. -/
def find? (s : Settings) : OptionName → Option Setting
  | .ignorePrelude => s.ignorePrelude.map .ignorePrelude
  | .blacklist => s.blacklist.map .blacklist
  | .whitelist => s.whitelist.map fun x => .whitelist x.2
  | .details => s.details.map .details
  | .wrapper => s.wrapper.map .wrapper
  | .timeLimit => s.timeLimit.map .timeLimit
  | .below => s.below.map .below
  | .above => s.above.map .above

theorem find?_nothing (n : OptionName) : find? {} n = none := by
  cases n <;> rfl

/-- A setting is made if there is none for its option, and changes what is said of that option only. -/
theorem find?_set (h : s.set pos v = .ok s') :
    s.find? v.name = none ∧ ∀ n, s'.find? n = if n = v.name then some v else s.find? n := by
  cases v
  all_goals
    simp only [set, setOnce, bind, Except.bind, pure, Except.pure] at h
    split at h
    · cases h
    · rename_i hslot
      split at hslot
      · cases hslot
      · rename_i hnone
        cases hslot
        cases h
        refine ⟨by simp [find?, Setting.name, hnone], fun n => ?_⟩
        cases n <;> simp [find?, Setting.name]

theorem set_of_none (pos : Pos) (h : s.find? v.name = none) : ∃ s', s.set pos v = .ok s' := by
  cases v
  all_goals
    simp only [find?, Setting.name, Option.map_eq_none_iff] at h
    simp [set, setOnce, h, bind, Except.bind, pure, Except.pure]

theorem find?_name {n : OptionName} (h : s.find? n = some v) : v.name = n := by
  cases n
  all_goals
    obtain ⟨_, _, rfl⟩ := Option.map_eq_some_iff.mp h
    rfl

/-- Settings that are all made are for different options, and are found by the names of these. -/
theorem find?_setAll {l : List (Pos × Setting)} (h : s.setAll l = .ok s') : (l.map (·.2.name)).Nodup ∧
    (∀ x ∈ l, s.find? x.2.name = none) ∧ ∀ n v, s'.find? n = some v ↔ s.find? n = some v ∨ v ∈ l.map Prod.snd ∧ v.name = n := by
  induction l generalizing s with
  | nil =>
    cases h
    simp
  | cons x l ih =>
    obtain ⟨pos, w⟩ := x
    rw [setAll_cons] at h
    cases hset : s.set pos w with
    | error e =>
      rw [hset] at h
      cases h
    | ok mid =>
      rw [hset] at h
      obtain ⟨hnone, hfind⟩ := find?_set hset
      obtain ⟨hnodup, hfresh, hall⟩ := ih h
      have hother : ∀ y ∈ l, y.2.name ≠ w.name ∧ s.find? y.2.name = none := fun y hy => by
        have hy := hfresh y hy
        rw [hfind] at hy
        split at hy
        · cases hy
        · exact ⟨‹_›, hy⟩
      refine ⟨List.nodup_cons.mpr ⟨fun hmem => ?_, hnodup⟩, ?_, fun n v => ?_⟩
      · obtain ⟨y, hy, hname⟩ := List.mem_map.mp hmem
        exact (hother y hy).1 hname
      · rintro y hy
        obtain rfl | hy := List.mem_cons.mp hy
        · exact hnone
        · exact (hother y hy).2
      · rw [hall, hfind, List.map_cons, List.mem_cons]
        split
        · rename_i hn
          subst hn
          rw [hnone]
          grind
        · grind

theorem setAll_of_nodup {l : List (Pos × Setting)} (hnodup : (l.map (·.2.name)).Nodup)
    (hfresh : ∀ x ∈ l, s.find? x.2.name = none) : ∃ s', s.setAll l = .ok s' := by
  induction l generalizing s with
  | nil => exact ⟨s, rfl⟩
  | cons x l ih =>
    obtain ⟨pos, w⟩ := x
    obtain ⟨mid, hset⟩ := set_of_none pos (hfresh _ (List.mem_cons_self ..))
    obtain ⟨hw, hnodup⟩ := List.nodup_cons.mp hnodup
    rw [setAll_cons, hset]
    refine ih hnodup fun y hy => ?_
    rw [(find?_set hset).2, if_neg fun hname => hw (List.mem_map.mpr ⟨y, hy, hname⟩)]
    exact hfresh y (List.mem_cons_of_mem _ hy)

/-! ### Plans by name -/

/-- Lists of patterns to leave out and lists of patterns to choose are not given together. -/
def OneList (s : Settings) : Prop := s.find? .blacklist = none ∨ s.find? .whitelist = none

/-- The options for calls are those that the settings say, if the lists allow it. -/
theorem callOptions_ok (s : Settings) (wrapper : Tree) :
    (∃ options, s.callOptions wrapper = .ok options) ↔ s.OneList := by
  unfold OneList find? callOptions
  cases s.blacklist <;> cases s.whitelist <;> simp [bind, Except.bind, pure, Except.pure]

/-- What is made of the options for calls does not decide whether they are there. -/
theorem map_callOptions_ok (s : Settings) (wrapper : Tree) (f : CallOptions → Plan) :
    (∃ plan, (s.callOptions wrapper).map f = .ok plan) ↔ s.OneList := by
  rw [← callOptions_ok s wrapper]
  cases s.callOptions wrapper <;> simp [Except.map]

theorem plan_wrapCalls_ok (s : Settings) :
    (∃ plan, s.plan .wrapCalls = .ok plan) ↔ s.find? .wrapper ≠ none ∧ s.OneList := by
  unfold plan
  cases hw : s.wrapper with
  | none => simp [find?, hw]
  | some w => simp [find?, hw, map_callOptions_ok]

/-- A callback is turned off by an option only. -/
theorem isNone_getD (slot : Option (Option Tree)) {f : Option Tree → Setting} (hf : ∀ a b, f a = f b → a = b) (dflt : Tree) :
    (slot.getD (some dflt)).isNone = true ↔ slot.map f = some (f none) := by
  cases slot with
  | none => simp
  | some callback =>
    rw [Option.getD_some, Option.isNone_iff_eq_none, Option.map_some, Option.some_inj]
    exact ⟨fun h => h ▸ rfl, hf callback none⟩

theorem plan_profile_ok (s : Settings) : (∃ plan, s.plan .profile = .ok plan) ↔ s.find? .timeLimit ≠ none ∧ s.OneList ∧
    ¬(s.find? .below = some (.below none) ∧ s.find? .above = some (.above none)) := by
  unfold plan
  cases ht : s.timeLimit with
  | none => simp [find?, ht]
  | some limit =>
    have hbelow := isNone_getD s.below (f := Setting.below) (fun _ _ h => by cases h; rfl)
      (Make.path true ["shallow_runtime", "profile", "log_below"])
    have habove := isNone_getD s.above (f := Setting.above) (fun _ _ h => by cases h; rfl)
      (Make.path true ["shallow_runtime", "profile", "log_above"])
    change (∃ plan, (if (s.below.getD _).isNone ∧ (s.above.getD _).isNone then _ else (s.callOptions _).map _) = .ok plan) ↔
      s.timeLimit.map _ ≠ none ∧ s.OneList ∧ ¬(s.below.map _ = _ ∧ s.above.map _ = _)
    rw [← hbelow, ← habove, ht]
    split
    · rename_i hnone
      refine ⟨fun h => ?_, fun h => absurd hnone h.2.2⟩
      obtain ⟨_, h⟩ := h
      cases h
    · rename_i hsome
      rw [map_callOptions_ok]
      exact ⟨fun h => ⟨by simp, h, hsome⟩, fun h => h.2.1⟩

/-- Settings that say the same of each option differ at most in the place of a list. -/
theorem eq_of_find? (h : ∀ n, s.find? n = t.find? n) :
    t = { s with whitelist := t.whitelist } ∧ s.whitelist.map Prod.snd = t.whitelist.map Prod.snd := by
  have field {α : Type} {a b : Option α} {f : α → Setting} (hf : ∀ x y, f x = f y → x = y) (hab : a.map f = b.map f) : a = b :=
    (Option.map_inj_right hf).mp hab
  have hprelude := field (fun _ _ h => by cases h; rfl) (h .ignorePrelude)
  have hblacklist := field (fun _ _ h => by cases h; rfl) (h .blacklist)
  have hdetails := field (fun _ _ h => by cases h; rfl) (h .details)
  have hwrapper := field (fun _ _ h => by cases h; rfl) (h .wrapper)
  have hlimit := field (fun _ _ h => by cases h; rfl) (h .timeLimit)
  have hbelow := field (fun _ _ h => by cases h; rfl) (h .below)
  have habove := field (fun _ _ h => by cases h; rfl) (h .above)
  have hwhitelist : (s.whitelist.map Prod.snd).map Setting.whitelist = (t.whitelist.map Prod.snd).map Setting.whitelist := by
    rw [Option.map_map, Option.map_map]
    exact h .whitelist
  refine ⟨?_, field (fun _ _ h => by cases h; rfl) hwhitelist⟩
  cases s
  cases t
  dsimp only at hprelude hblacklist hdetails hwrapper hlimit hbelow habove
  subst hprelude hblacklist hdetails hwrapper hlimit hbelow habove
  rfl

/-- Settings that say the same of each option give the same plan. -/
theorem plan_of_find? (h : ∀ n, s.find? n = t.find? n) {m : Marker} {plan : Plan} (hs : s.plan m = .ok plan) :
    t.plan m = .ok plan := by
  obtain ⟨ht, hlist⟩ := eq_of_find? h
  have hone : s.OneList := by
    cases m with
    | wrapCalls => exact (s.plan_wrapCalls_ok.mp ⟨plan, hs⟩).2
    | profile => exact (s.plan_profile_ok.mp ⟨plan, hs⟩).2.1
  rw [ht]
  obtain ⟨prelude, blacklist, whitelist, details, wrapper, limit, below, above⟩ := s
  -- The place of the list is used only where there is another one.
  cases hwhite : t.whitelist with
  | none =>
    rw [hwhite, Option.map_none, Option.map_eq_none_iff] at hlist
    dsimp only at hlist
    subst hlist
    exact hs
  | some x =>
    rw [hwhite] at hlist
    obtain ⟨y, hy, hxy⟩ := Option.map_eq_some_iff.mp hlist
    dsimp only at hy
    subst hy
    obtain rfl : blacklist = none := by simpa [OneList, find?] using hone
    obtain ⟨p, ps⟩ := x
    obtain ⟨q, qs⟩ := y
    cases hxy
    cases m <;> exact hs

end Settings

/-! ### What given options mean -/

namespace MarkerOption

variable {m : Marker} {o : MarkerOption} {v : Setting}

/-- The texts of the patterns that are given. -/
def texts : MarkerOption → List String
  | blacklist ts | whitelist ts => ts
  | _ => []

theorem name?_of_setting? (h : o.setting? = some v) : o.name? = some v.name := by
  cases o with
  | blacklist ts | whitelist ts | timeLimit number =>
    obtain ⟨_, _, rfl⟩ := Option.map_eq_some_iff.mp h
    rfl
  | other fromRoot words => cases h
  | _ =>
    cases h
    rfl

theorem settingFor_eq_some : o.settingFor m = some v ↔ o.isOf m = true ∧ o.setting? = some v := by
  unfold settingFor
  split <;> simp_all

end MarkerOption

theorem settingsFor?_mem {m : Marker} {os : List MarkerOption} {vs : List Setting} (h : settingsFor? m os = some vs) :
    os.map MarkerOption.name? = vs.map (some ·.name) ∧ (∀ o ∈ os, ∃ v, o.settingFor m = some v) ∧
      ∀ v, v ∈ vs ↔ ∃ o ∈ os, o.settingFor m = some v := by
  induction os generalizing vs with
  | nil =>
    cases h
    simp
  | cons o os ih =>
    rw [settingsFor?_cons] at h
    obtain ⟨v, hv, h⟩ := Option.bind_eq_some_iff.mp h
    obtain ⟨vs, hvs, rfl⟩ := Option.map_eq_some_iff.mp h
    obtain ⟨hnames, hsome, hmem⟩ := ih hvs
    have hname := MarkerOption.name?_of_setting? (MarkerOption.settingFor_eq_some.mp hv).2
    refine ⟨by rw [List.map_cons, List.map_cons, hname, hnames], ?_, fun w => ?_⟩
    · simpa using ⟨⟨v, hv⟩, hsome⟩
    · rw [List.mem_cons, hmem]
      simp [hv, eq_comm]

theorem settingsFor?_isSome {m : Marker} {os : List MarkerOption} (h : ∀ o ∈ os, ∃ v, o.settingFor m = some v) :
    ∃ vs, settingsFor? m os = some vs := by
  induction os with
  | nil => exact ⟨[], rfl⟩
  | cons o os ih =>
    obtain ⟨v, hv⟩ := h o (List.mem_cons_self ..)
    obtain ⟨vs, hvs⟩ := ih fun o ho => h o (List.mem_cons_of_mem _ ho)
    exact ⟨v :: vs, by rw [settingsFor?_cons, hv, hvs]; rfl⟩

/-! ### Plans from given options -/

/-- Settings that say what given options say to a marker, each of which is given once. -/
structure Says (m : Marker) (os : List MarkerOption) (s : Settings) : Prop where
  once : (os.map MarkerOption.name?).Nodup
  means : ∀ o ∈ os, ∃ v, o.settingFor m = some v
  find : ∀ n v, s.find? n = some v ↔ ∃ o ∈ os, o.settingFor m = some v ∧ v.name = n

/-- Options are read if each is given once and means something, and then the settings say what is given. -/
theorem readSettings_said {m : Marker} {args : List TokenTree} {os : List MarkerOption} (h : Options args os) :
    (∀ s, readSettings m args = .ok s → Says m os s) ∧
      ((os.map MarkerOption.name?).Nodup → (∀ o ∈ os, ∃ v, o.settingFor m = some v) → ∃ s, readSettings m args = .ok s) := by
  obtain ⟨hnone, e, he⟩ | ⟨settings, hsettings, hread⟩ := readSettings_options h m
  · refine ⟨fun s hs => ?_, fun _ hmeans => ?_⟩
    · rw [he] at hs
      cases hs
    · obtain ⟨vs, hvs⟩ := settingsFor?_isSome hmeans
      rw [hnone] at hvs
      cases hvs
  · obtain ⟨hnames, hmeans, hmem⟩ := settingsFor?_mem hsettings
    have hnodup : (os.map MarkerOption.name?).Nodup ↔ (settings.map (·.2.name)).Nodup := by
      rw [hnames, List.map_map,
        show (fun v : Setting => some v.name) ∘ Prod.snd = some ∘ fun x : Pos × Setting => x.2.name from rfl, ← List.map_map, List.nodup_map_iff fun _ _ h => Option.some.inj h]
    rw [hread]
    refine ⟨fun s hs => ?_, fun hnodup' _ => ?_⟩
    · obtain ⟨hdistinct, -, hfind⟩ := Settings.find?_setAll hs
      refine ⟨hnodup.mpr hdistinct, hmeans, fun n v => ?_⟩
      rw [hfind, Settings.find?_nothing, hmem]
      simp [← and_assoc]
    · exact Settings.setAll_of_nodup (hnodup.mp hnodup') fun x _ => Settings.find?_nothing _

/-- An option is among those that are given. -/
def IsGiven (n : OptionName) (os : List MarkerOption) : Prop := ∃ o ∈ os, o.name? = some n

/-- The options that a marker takes together. -/
structure Acceptable (m : Marker) (os : List MarkerOption) : Prop where
  options : ∀ o ∈ os, o.isOf m = true
  once : (os.map MarkerOption.name?).Nodup
  wrapper : m = .wrapCalls → IsGiven .wrapper os
  limit : m = .profile → ∃ number limit, .timeLimit number ∈ os ∧ limitOf? number = some limit
  oneList : ¬(IsGiven .blacklist os ∧ IsGiven .whitelist os)
  patterns : ∀ o ∈ os, ∀ t ∈ o.texts, ∃ p, Pattern.parse t = .ok p
  callback : m = .profile → ¬((∃ p, .below p ∈ os ∧ isWord "none" p = true) ∧ ∃ p, .above p ∈ os ∧ isWord "none" p = true)

section

variable {m : Marker} {os : List MarkerOption} {s : Settings}

theorem Says.isGiven (h : Says m os s) (n : OptionName) : s.find? n ≠ none ↔ IsGiven n os := by
  constructor
  · intro hsome
    obtain ⟨v, hv⟩ := Option.ne_none_iff_exists'.mp hsome
    obtain ⟨o, ho, hfor, rfl⟩ := (h.find n v).mp hv
    exact ⟨o, ho, MarkerOption.name?_of_setting? (MarkerOption.settingFor_eq_some.mp hfor).2⟩
  · rintro ⟨o, ho, hname⟩
    obtain ⟨v, hv⟩ := h.means o ho
    have hn := MarkerOption.name?_of_setting? (MarkerOption.settingFor_eq_some.mp hv).2
    rw [hname, Option.some_inj] at hn
    rw [(h.find n v).mpr ⟨o, ho, hv, hn.symm⟩]
    simp

/-- What is found of an option is what is given of it. -/
theorem Says.find?_of_mem (h : Says m os s) {o : MarkerOption} (ho : o ∈ os) {n : OptionName} (hn : o.name? = some n) :
    s.find? n = o.settingFor m := by
  obtain ⟨v, hv⟩ := h.means o ho
  have hname := MarkerOption.name?_of_setting? (MarkerOption.settingFor_eq_some.mp hv).2
  rw [hn, Option.some_inj] at hname
  rw [hv, (h.find n v).mpr ⟨o, ho, hv, hname.symm⟩]

theorem Says.find?_of_not (h : Says m os s) {n : OptionName} (hn : ¬IsGiven n os) : s.find? n = none := by
  by_contra hsome
  exact hn ((h.isGiven n).mp hsome)

theorem Says.oneList (h : Says m os s) : s.OneList ↔ ¬(IsGiven .blacklist os ∧ IsGiven .whitelist os) := by
  rw [← h.isGiven, ← h.isGiven, Settings.OneList]
  tauto

theorem patternsOf?_isSome {texts : List String} :
    (∃ ps, patternsOf? texts = some ps) ↔ ∀ t ∈ texts, ∃ p, Pattern.parse t = .ok p := by
  induction texts with
  | nil => simpa using ⟨[], rfl⟩
  | cons t ts ih =>
    rw [patternsOf?_cons, List.forall_mem_cons, ← ih]
    cases Pattern.parse t <;> simp [Except.toOption]

theorem MarkerOption.patterns_of_settingFor {o : MarkerOption} {v : Setting} (h : o.settingFor m = some v) :
    ∀ t ∈ o.texts, ∃ p, Pattern.parse t = .ok p := by
  have hv := (MarkerOption.settingFor_eq_some.mp h).2
  cases o with
  | blacklist ts | whitelist ts =>
    obtain ⟨ps, hps, -⟩ := Option.map_eq_some_iff.mp hv
    exact patternsOf?_isSome.mp ⟨ps, hps⟩
  | _ => simp [MarkerOption.texts]

theorem MarkerOption.settingFor_of_patterns {o : MarkerOption} (hof : o.isOf m = true)
    (hpatterns : ∀ t ∈ o.texts, ∃ p, Pattern.parse t = .ok p)
    (hlimit : ∀ number, o = .timeLimit number → ∃ limit, limitOf? number = some limit) : ∃ v, o.settingFor m = some v := by
  suffices hv : ∃ v, o.setting? = some v by
    obtain ⟨v, hv⟩ := hv
    exact ⟨v, MarkerOption.settingFor_eq_some.mpr ⟨hof, hv⟩⟩
  cases o with
  | blacklist ts | whitelist ts =>
    obtain ⟨ps, hps⟩ := patternsOf?_isSome.mpr hpatterns
    exact ⟨_, Option.map_eq_some_iff.mpr ⟨ps, hps, rfl⟩⟩
  | timeLimit number =>
    obtain ⟨limit, hlimit⟩ := hlimit number rfl
    exact ⟨_, Option.map_eq_some_iff.mpr ⟨limit, hlimit, rfl⟩⟩
  | other fromRoot words => cases hof
  | _ => exact ⟨_, rfl⟩

/-- The time limit that is found is one that is given. -/
theorem Says.limit (h : Says .profile os s) :
    s.find? .timeLimit ≠ none ↔ ∃ number limit, .timeLimit number ∈ os ∧ limitOf? number = some limit := by
  rw [h.isGiven]
  constructor
  · rintro ⟨o, ho, hname⟩
    cases o with
    | timeLimit number =>
      obtain ⟨v, hv⟩ := h.means _ ho
      obtain ⟨limit, hlimit, -⟩ := Option.map_eq_some_iff.mp (MarkerOption.settingFor_eq_some.mp hv).2
      exact ⟨number, limit, ho, hlimit⟩
    | _ => cases hname
  · rintro ⟨number, -, hmem, -⟩
    exact ⟨_, hmem, rfl⟩

theorem callbackOf_eq_none {p : Tree} : callbackOf p = none ↔ isWord "none" p = true := by
  unfold callbackOf
  split <;> simp_all

theorem MarkerOption.setting?_eq_below {o : MarkerOption} {c : Option Tree} :
    o.setting? = some (.below c) ↔ ∃ p, o = .below p ∧ callbackOf p = c := by
  cases o <;> simp [MarkerOption.setting?]

theorem MarkerOption.setting?_eq_above {o : MarkerOption} {c : Option Tree} :
    o.setting? = some (.above c) ↔ ∃ p, o = .above p ∧ callbackOf p = c := by
  cases o <;> simp [MarkerOption.setting?]

/-- A callback that is found to be turned off is given as `none`. -/
theorem Says.turnsOff (h : Says .profile os s) {n : OptionName} {off : Setting} {given : Tree → MarkerOption}
    (hgiven : ∀ {o : MarkerOption}, o.setting? = some off ↔ ∃ p, o = given p ∧ callbackOf p = none)
    (hof : ∀ p, (given p).isOf .profile = true) (hname : off.name = n) :
    s.find? n = some off ↔ ∃ p, given p ∈ os ∧ isWord "none" p = true := by
  rw [h.find]
  constructor
  · rintro ⟨o, ho, hv, -⟩
    obtain ⟨p, rfl, hnone⟩ := hgiven.mp (MarkerOption.settingFor_eq_some.mp hv).2
    exact ⟨p, ho, callbackOf_eq_none.mp hnone⟩
  · rintro ⟨p, hmem, hnone⟩
    have hsetting := hgiven.mpr ⟨p, rfl, callbackOf_eq_none.mpr hnone⟩
    exact ⟨_, hmem, MarkerOption.settingFor_eq_some.mpr ⟨hof p, hsetting⟩, hname⟩

/-- Where the settings are what is given, they give a plan if the options are acceptable. -/
theorem Says.plan_ok (h : Says m os s) : (∃ plan, s.plan m = .ok plan) ↔ Acceptable m os := by
  have hoptions : ∀ o ∈ os, o.isOf m = true := fun o ho => by
    obtain ⟨v, hv⟩ := h.means o ho
    exact (MarkerOption.settingFor_eq_some.mp hv).1
  have hpatterns : ∀ o ∈ os, ∀ t ∈ o.texts, ∃ p, Pattern.parse t = .ok p := fun o ho => by
    obtain ⟨v, hv⟩ := h.means o ho
    exact MarkerOption.patterns_of_settingFor hv
  cases m with
  | wrapCalls =>
    rw [Settings.plan_wrapCalls_ok, h.isGiven, h.oneList]
    refine ⟨fun hplan => ⟨hoptions, h.once, fun _ => hplan.1, fun h => (by cases h), hplan.2, hpatterns, fun h => (by cases h)⟩,
      fun hok => ⟨hok.wrapper rfl, hok.oneList⟩⟩
  | profile =>
    rw [Settings.plan_profile_ok, h.limit, h.oneList,
      h.turnsOff (n := .below) MarkerOption.setting?_eq_below (fun _ => rfl) rfl,
      h.turnsOff (n := .above) MarkerOption.setting?_eq_above (fun _ => rfl) rfl]
    refine ⟨fun hplan => ⟨hoptions, h.once, fun h => (by cases h), fun _ => hplan.1, hplan.2.1, hpatterns, fun _ => hplan.2.2⟩,
      fun hok => ⟨hok.limit rfl, hok.oneList, hok.callback rfl⟩⟩

/-- Acceptable options mean something, each of them. -/
theorem Acceptable.means (h : Acceptable m os) : ∀ o ∈ os, ∃ v, o.settingFor m = some v := by
  refine fun o ho => MarkerOption.settingFor_of_patterns (h.options o ho) (h.patterns o ho) fun number hnumber => ?_
  subst hnumber
  have hmarker : m = .profile := by
    cases m with
    | wrapCalls => cases h.options _ ho
    | profile => rfl
  obtain ⟨number', limit, hmem, hlimit⟩ := h.limit hmarker
  -- There is one time limit only.
  obtain hsame := List.inj_on_of_nodup_map h.once ho hmem rfl
  cases hsame
  exact ⟨limit, hlimit⟩

theorem Plan.parse_ok_iff {args : List TokenTree} (h : Options args os) {plan : Plan} :
    Plan.parse m args = .ok plan ↔ ∃ s, readSettings m args = .ok s ∧ Says m os s ∧ s.plan m = .ok plan := by
  change (readSettings m args).bind (·.plan m) = .ok plan ↔ _
  cases hread : readSettings m args with
  | error e => simp [Except.bind]
  | ok s => simp [Except.bind, (readSettings_said h).1 s hread]

/-- Options that are acceptable can be read, and the settings say what is given. -/
theorem Acceptable.read (h : Acceptable m os) {args : List TokenTree} (hargs : Options args os) :
    ∃ s, readSettings m args = .ok s ∧ Says m os s := by
  obtain ⟨s, hs⟩ := (readSettings_said hargs).2 h.once h.means
  exact ⟨s, hs, (readSettings_said hargs).1 s hs⟩

theorem Plan.parse_isOk {args : List TokenTree} (h : Options args os) :
    (∃ plan, Plan.parse m args = .ok plan) ↔ Acceptable m os := by
  constructor
  · rintro ⟨plan, hplan⟩
    obtain ⟨s, -, hsaid, hs⟩ := (Plan.parse_ok_iff h).mp hplan
    exact hsaid.plan_ok.mp ⟨plan, hs⟩
  · intro hok
    obtain ⟨s, hread, hsaid⟩ := hok.read h
    obtain ⟨plan, hplan⟩ := hsaid.plan_ok.mpr hok
    exact ⟨plan, (Plan.parse_ok_iff h).mpr ⟨s, hread, hsaid, hplan⟩⟩

theorem Acceptable.perm {os' : List MarkerOption} (h : Acceptable m os) (hperm : os'.Perm os) : Acceptable m os' := by
  have hgiven (n : OptionName) : IsGiven n os' ↔ IsGiven n os := by simp [IsGiven, hperm.mem_iff]
  constructor
  · exact fun o ho => h.options o (hperm.mem_iff.mp ho)
  · exact (hperm.map _).nodup_iff.mpr h.once
  · simpa only [hgiven] using h.wrapper
  · simpa only [hperm.mem_iff] using h.limit
  · simpa only [hgiven] using h.oneList
  · exact fun o ho => h.patterns o (hperm.mem_iff.mp ho)
  · simpa only [hperm.mem_iff] using h.callback

/-- In another order, options that give a plan give the same one. -/
theorem Plan.parse_perm {args args' : List TokenTree} {os' : List MarkerOption} (h : Options args os) (h' : Options args' os')
    (hperm : os'.Perm os) {plan : Plan} (hplan : Plan.parse m args = .ok plan) : Plan.parse m args' = .ok plan := by
  obtain ⟨s, -, hsaid, hs⟩ := (Plan.parse_ok_iff h).mp hplan
  obtain ⟨s', hread', hsaid'⟩ := ((hsaid.plan_ok.mp ⟨plan, hs⟩).perm hperm).read h'
  refine (Plan.parse_ok_iff h').mpr ⟨s', hread', hsaid', Settings.plan_of_find? (fun n => Option.ext fun v => ?_) hs⟩
  rw [hsaid.find, hsaid'.find]
  simp only [hperm.mem_iff]

/-- There is a plan if the options are acceptable, and in any order there is the same one. -/
theorem Plan.parse_options (m : Marker) {args : List TokenTree} (h : Options args os) :
    ((∃ plan, Plan.parse m args = .ok plan) ↔ Acceptable m os) ∧
      ∀ {args' : List TokenTree} {os' : List MarkerOption}, Options args' os' → os'.Perm os →
        ∀ plan, Plan.parse m args' = .ok plan ↔ Plan.parse m args = .ok plan :=
  ⟨Plan.parse_isOk h, fun h' hperm _ => ⟨Plan.parse_perm h' h hperm.symm, Plan.parse_perm h h' hperm⟩⟩

/-- The tokens of `wrapper = w`. -/
def wrapperTokens : List TokenTree := [.ident "wrapper" Pos.none, .punct '=' false Pos.none, .ident "w" Pos.none]

/-- The tokens of `ignore_builtins`. -/
def preludeTokens : List TokenTree := [.ident "ignore_builtins" Pos.none]

/-- A wrapper and a flag give the same plan in both orders, here with a comma behind them in one. -/
theorem parse_options_swapped : ∃ path, Grammar.parsePath [.ident "w" Pos.none] = .ok path ∧
    Options (wrapperTokens ++ .punct ',' false Pos.none :: preludeTokens) [.wrapper path, .ignorePrelude true] ∧
    Options (preludeTokens ++ .punct ',' false Pos.none :: (wrapperTokens ++ [.punct ',' false Pos.none]))
      [.ignorePrelude true, .wrapper path] ∧
    (∃ plan, Plan.parse .wrapCalls (wrapperTokens ++ .punct ',' false Pos.none :: preludeTokens) = .ok plan) ∧
    ∀ plan, Plan.parse .wrapCalls (preludeTokens ++ .punct ',' false Pos.none :: (wrapperTokens ++ [.punct ',' false Pos.none])) =
        .ok plan ↔ Plan.parse .wrapCalls (wrapperTokens ++ .punct ',' false Pos.none :: preludeTokens) = .ok plan := by
  obtain ⟨path, hpath⟩ : ∃ path, Grammar.parsePath [.ident "w" Pos.none] = .ok path := by
    have htest : (Grammar.parsePath [.ident "w" Pos.none]).isOk = true := by decide +kernel
    cases h : Grammar.parsePath [.ident "w" Pos.none] with
    | error e =>
      rw [h] at htest
      cases htest
    | ok path => exact ⟨path, rfl⟩
  have hwrapper : Spells wrapperTokens (.wrapper path) := .wrapper hpath _ _ _
  have hargs : Options (wrapperTokens ++ .punct ',' false Pos.none :: preludeTokens) [.wrapper path, .ignorePrelude true] :=
    .cons hwrapper _ _ (.last (.flag _))
  have hargs' : Options (preludeTokens ++ .punct ',' false Pos.none :: (wrapperTokens ++ [.punct ',' false Pos.none]))
      [.ignorePrelude true, .wrapper path] := .cons (.flag _) _ _ (.cons hwrapper _ _ .nil)
  obtain ⟨hok, horder⟩ := Plan.parse_options .wrapCalls hargs
  refine ⟨path, hpath, hargs, hargs', hok.mpr ⟨?_, ?_, ?_, ?_, ?_, ?_, ?_⟩, horder hargs' (.swap _ _ _)⟩
  · simp [MarkerOption.isOf, MarkerOption.name?, OptionName.isOf]
  · simp [MarkerOption.name?]
  · exact fun _ => ⟨_, List.mem_cons_self .., rfl⟩
  · exact fun h => by cases h
  · simp [IsGiven, MarkerOption.name?]
  · simp [MarkerOption.texts]
  · exact fun h => by cases h

end

end CallProbe.Probe
