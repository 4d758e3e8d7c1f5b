import CallProbe.CommandLine.Plan
import CallProbe.Proofs.Options.Decimal
import CallProbe.Proofs.Options.Order
import CallProbe.Proofs.Shape.Places

/-! # The same options in two places

Options for calls can be given on the command line and in an attribute. The attribute spells them as a path or a number, as a
flag that stands there or not, and as lists that are not empty; in this spelling they give the same plan as on the command
line, or both give none (`plan_spelled`). Only the places of the words of a path are not those of the command line. -/

namespace CallProbe.Probe

open Source

/-- Options for calls without places. -/
def CallOptions.unplaced (options : CallOptions) : CallOptions := { options with wrapper := options.wrapper.unplaced }

/-- A plan without places. -/
def Plan.unplaced : Plan → Plan
  | .wrapCalls options => .wrapCalls options.unplaced
  | .profile options => .profile { options with
      calls := options.calls.unplaced
      below := options.below.map Tree.unplaced
      above := options.above.map Tree.unplaced }

end CallProbe.Probe

namespace CallProbe.CommandLine

open Source Call Probe Time

/-- What is probed, as an option of a marker: a path, or a number without gaps and suffix and maybe with a minus. -/
inductive MainOption (a : CallArgs) : Marker → MarkerOption → Prop where
  | wrapper {w : String} {ts : List TokenTree} {given path : Tree} (hwrapper : a.wrapper = some w) (hlimit : a.timeLimit = none)
      (htext : tokenize w = some ts) (hgiven : Grammar.parsePath ts = .ok given) (hsame : path.same given = true) :
      MainOption a .wrapCalls (.wrapper path)
  | limit {t d : String} {x : Float64} (hwrapper : a.wrapper = none) (hlimit : a.timeLimit = some x)
      (hgap : '_' ∉ t.toList) (hliteral : Literal.ofText t = some (.int d "") ∨ Literal.ofText t = some (.float d ""))
      (hparse : Float64.parse t = some x) : MainOption a .profile (.timeLimit (some d))
  | negative {t d : String} {x : Float64} (hwrapper : a.wrapper = none) (hlimit : a.timeLimit = some x)
      (hgap : '_' ∉ t.toList) (hliteral : Literal.ofText t = some (.int d "") ∨ Literal.ofText t = some (.float d ""))
      (hparse : Float64.parse ("-" ++ t) = some x) : MainOption a .profile (.timeLimit (some ("-" ++ d)))

/-- The other options: a flag if it is set, and the lists that are not empty. -/
def CallArgs.others (a : CallArgs) : List MarkerOption :=
  (if a.ignorePrelude then [.ignorePrelude true] else []) ++
    (if a.blacklist.isEmpty then [] else [.blacklist a.blacklist]) ++
    (if a.whitelist.isEmpty then [] else [.whitelist a.whitelist])

/-- The settings that the options say, with one for what is probed. -/
def CallArgs.settings (a : CallArgs) (v : Setting) : Settings where
  ignorePrelude := if a.ignorePrelude then some true else none
  blacklist := if a.blacklist.isEmpty then none else patternsOf? a.blacklist
  whitelist := if a.whitelist.isEmpty then none else (patternsOf? a.whitelist).map (Pos.none, ·)
  wrapper := match v with
    | .wrapper path => some path
    | _ => none
  timeLimit := match v with
    | .timeLimit limit => some limit
    | _ => none

/-- The lists that are given can be read. -/
structure CallArgs.ListsRead (a : CallArgs) : Prop where
  blacklist : a.blacklist ≠ [] → ∃ ps, patternsOf? a.blacklist = some ps
  whitelist : a.whitelist ≠ [] → ∃ ps, patternsOf? a.whitelist = some ps

variable {a : CallArgs} {m : Marker} {main o : MarkerOption} {os : List MarkerOption} {s : Settings}

/-! ### Results -/

theorem toOption_eq_some {ε α : Type} {e : Except ε α} {x : α} : e.toOption = some x ↔ e = .ok x := by
  cases e <;> simp [Except.toOption]

theorem toOption_eq_none {ε α : Type} {e : Except ε α} : e.toOption = none ↔ ∃ f, e = .error f := by
  cases e <;> simp [Except.toOption]

/-! ### Lists of patterns -/

/-- The patterns that texts are, or what is wrong with the first that is none. -/
def readPatterns (texts : List String) : Except PlanFault (List Pattern) :=
  texts.mapM fun t => (Pattern.parse t).mapError PlanFault.badPattern

theorem readPatterns_toOption (texts : List String) : (readPatterns texts).toOption = patternsOf? texts := by
  induction texts with
  | nil => rfl
  | cons t ts ih =>
    rw [readPatterns, List.mapM_cons, patternsOf?_cons, ← ih]
    cases Pattern.parse t with
    | error e => rfl
    | ok p =>
      change ((readPatterns ts).bind fun ps => .ok (p :: ps)).toOption = (readPatterns ts).toOption.map (p :: ·)
      cases readPatterns ts <;> rfl

/-- The filter of two lists of texts, if there is one. -/
def filterFor? (blacklist whitelist : List String) : Option Filter :=
  if blacklist.isEmpty then
    if whitelist.isEmpty then some .all else (patternsOf? whitelist).map .whitelist
  else if whitelist.isEmpty then (patternsOf? blacklist).map .blacklist else none

theorem filterOfLists_toOption (blacklist whitelist : List String) :
    (filterOfLists blacklist whitelist).toOption = filterFor? blacklist whitelist := by
  have hmap {f : List Pattern → Filter} (texts : List String) :
      ((readPatterns texts).map f).toOption = (patternsOf? texts).map f := by
    rw [← readPatterns_toOption]
    cases readPatterns texts <;> rfl
  cases blacklist with
  | nil =>
    cases whitelist with
    | nil => rfl
    | cons t ts => exact hmap (t :: ts)
  | cons t ts =>
    cases whitelist with
    | nil => exact hmap (t :: ts)
    | cons u us => rfl

/-- The options for calls that an attribute says. -/
theorem settings_callOptions (h : a.ListsRead) (v : Setting) (w : Tree) : ((a.settings v).callOptions w).toOption =
    (filterFor? a.blacklist a.whitelist).map fun filter => { wrapper := w, ignorePrelude := a.ignorePrelude, filter } := by
  have hprelude : (if a.ignorePrelude then some true else none).getD false = a.ignorePrelude := by
    cases a.ignorePrelude <;> rfl
  unfold Settings.callOptions CallArgs.settings filterFor?
  rw [hprelude]
  by_cases hb : a.blacklist = []
  · by_cases hw : a.whitelist = []
    · simp [hb, hw, bind, Except.bind, pure, Except.pure, Except.toOption]
    · obtain ⟨ps, hps⟩ := h.whitelist hw
      simp [hb, hw, hps, bind, Except.bind, pure, Except.pure, Except.toOption]
  · obtain ⟨ps, hps⟩ := h.blacklist hb
    by_cases hw : a.whitelist = []
    · simp [hb, hw, hps, bind, Except.bind, pure, Except.pure, Except.toOption]
    · obtain ⟨qs, hqs⟩ := h.whitelist hw
      simp [hb, hw, hps, hqs, bind, Except.bind, Except.toOption]

/-! ### The settings of an attribute -/

theorem mem_others : o ∈ a.others ↔ (a.ignorePrelude = true ∧ o = .ignorePrelude true) ∨
    (a.blacklist ≠ [] ∧ o = .blacklist a.blacklist) ∨ (a.whitelist ≠ [] ∧ o = .whitelist a.whitelist) := by
  unfold CallArgs.others
  cases a.ignorePrelude <;> cases a.blacklist <;> cases a.whitelist <;> simp

/-- What is probed is said by a path or by a time limit. -/
theorem MainOption.setting (h : MainOption a m main) {v : Setting} (hv : main.settingFor m = some v) :
    (∃ w, v = .wrapper w) ∨ ∃ limit, v = .timeLimit limit := by
  cases h with
  | wrapper =>
    cases hv
    exact .inl ⟨_, rfl⟩
  | limit | negative =>
    obtain ⟨limit, -, rfl⟩ := Option.map_eq_some_iff.mp (MarkerOption.settingFor_eq_some.mp hv).2
    exact .inr ⟨limit, rfl⟩

section

variable (hos : os.Perm (main :: a.others))

include hos

theorem isGiven_iff (n : OptionName) : IsGiven n os ↔ main.name? = some n ∨ (n = .ignorePrelude ∧ a.ignorePrelude = true) ∨
    (n = .blacklist ∧ a.blacklist ≠ []) ∨ (n = .whitelist ∧ a.whitelist ≠ []) := by
  unfold IsGiven
  simp only [hos.mem_iff, List.mem_cons, mem_others]
  constructor
  · rintro ⟨o, rfl | ⟨hprelude, rfl⟩ | ⟨hlist, rfl⟩ | ⟨hlist, rfl⟩, hn⟩
    · exact .inl hn
    · cases hn
      exact .inr (.inl ⟨rfl, hprelude⟩)
    · cases hn
      exact .inr (.inr (.inl ⟨rfl, hlist⟩))
    · cases hn
      exact .inr (.inr (.inr ⟨rfl, hlist⟩))
  · rintro (hn | ⟨rfl, hprelude⟩ | ⟨rfl, hlist⟩ | ⟨rfl, hlist⟩)
    · exact ⟨_, .inl rfl, hn⟩
    · exact ⟨_, .inr (.inl ⟨hprelude, rfl⟩), rfl⟩
    · exact ⟨_, .inr (.inr (.inl ⟨hlist, rfl⟩)), rfl⟩
    · exact ⟨_, .inr (.inr (.inr ⟨hlist, rfl⟩)), rfl⟩

/-- The settings of an attribute say of each option what the options on the command line say. -/
theorem find?_settings (hmain : MainOption a m main) (hsaid : Says m os s) {v : Setting} (hv : main.settingFor m = some v)
    (n : OptionName) : s.find? n = (a.settings v).find? n := by
  have hname := MarkerOption.name?_of_setting? (MarkerOption.settingFor_eq_some.mp hv).2
  have hmem {o : MarkerOption} (ho : o ∈ a.others) : o ∈ os := hos.mem_iff.mpr (List.mem_cons_of_mem _ ho)
  have hnone (hn : ¬(main.name? = some n ∨ (n = .ignorePrelude ∧ a.ignorePrelude = true) ∨
      (n = .blacklist ∧ a.blacklist ≠ []) ∨ (n = .whitelist ∧ a.whitelist ≠ []))) : s.find? n = none :=
    hsaid.find?_of_not fun hgiven => hn ((isGiven_iff hos n).mp hgiven)
  have hprobed (hn : v.name = n) : s.find? n = some v := by
    rw [hsaid.find?_of_mem (hos.mem_iff.mpr (List.mem_cons_self ..)) (by rw [hname, hn]), hv]
  obtain ⟨w, rfl⟩ | ⟨limit, rfl⟩ := hmain.setting hv
  all_goals
    rw [hname] at hnone
    cases n with
    | wrapper | timeLimit => first | exact hprobed rfl | exact hnone (by simp [Setting.name])
    | ignorePrelude =>
      by_cases hflag : a.ignorePrelude = true
      · rw [hsaid.find?_of_mem (hmem (mem_others.mpr (.inl ⟨hflag, rfl⟩))) rfl]
        simp only [Settings.find?, CallArgs.settings, if_pos hflag]
        cases m <;> rfl
      · rw [hnone (by simp [Setting.name, hflag])]
        simp [Settings.find?, CallArgs.settings, hflag]
    | blacklist =>
      by_cases hlist : a.blacklist = []
      · rw [hnone (by simp [Setting.name, hlist])]
        simp [Settings.find?, CallArgs.settings, hlist]
      · rw [hsaid.find?_of_mem (hmem (mem_others.mpr (.inr (.inl ⟨hlist, rfl⟩)))) rfl]
        simp only [Settings.find?, CallArgs.settings, List.isEmpty_iff, if_neg hlist]
        cases m <;> rfl
    | whitelist =>
      by_cases hlist : a.whitelist = []
      · rw [hnone (by simp [Setting.name, hlist])]
        simp [Settings.find?, CallArgs.settings, hlist]
      · rw [hsaid.find?_of_mem (hmem (mem_others.mpr (.inr (.inr ⟨hlist, rfl⟩)))) rfl]
        simp only [Settings.find?, CallArgs.settings, List.isEmpty_iff, if_neg hlist, Option.map_map]
        cases m <;> rfl
    | details | below | above => exact hnone (by simp [Setting.name])

end

/-! ### Plans -/

/-- The plan for what is probed, with the other options. -/
def CallArgs.planFor? (a : CallArgs) (v : Setting) : Option Plan :=
  (filterFor? a.blacklist a.whitelist).bind fun filter =>
    match v with
    | .wrapper path => some (.wrapCalls { wrapper := path, ignorePrelude := a.ignorePrelude, filter })
    | .timeLimit limit =>
      let dflt := ProfileOptions.ofLimit limit
      some (.profile { dflt with calls := { dflt.calls with ignorePrelude := a.ignorePrelude, filter } })
    | _ => none

/-- A number says the limit that it says as a number of seconds. -/
theorem limitOf?_of_parse {d : String} {x : Float64} (h : Float64.parse d = some x) :
    limitOf? (some d) = (limitOfSeconds x).toOption := by
  rw [limitOf?, Option.bind_some, h, Option.bind_some]

theorem plan_of_wrapper {w : String} {path : Tree} (hwrapper : a.wrapper = some w) (hw : wrapperPath w = .ok path) :
    a.plan.toOption = (a.planFor? (.wrapper path)).map some := by
  unfold CallArgs.plan CallArgs.callOptions CallArgs.planFor?
  rw [hwrapper, ← filterOfLists_toOption]
  dsimp only
  rw [hw]
  cases filterOfLists a.blacklist a.whitelist <;> rfl

theorem plan_of_limit {x : Float64} (hwrapper : a.wrapper = none) (hlimit : a.timeLimit = some x) :
    a.plan.toOption = (((limitOfSeconds x).toOption.map Setting.timeLimit).bind a.planFor?).map some := by
  unfold CallArgs.plan CallArgs.callOptions CallArgs.planFor?
  rw [hwrapper, hlimit, ← filterOfLists_toOption]
  dsimp only
  cases filterOfLists a.blacklist a.whitelist <;> cases limitOfSeconds x <;> rfl

/-- The plans for a path in two places are the same. -/
theorem planFor?_same {p q : Tree} (h : p.same q = true) :
    (a.planFor? (.wrapper p)).map Plan.unplaced = (a.planFor? (.wrapper q)).map Plan.unplaced := by
  unfold CallArgs.planFor?
  rw [Option.map_bind, Option.map_bind]
  refine congrArg _ (funext fun filter => congrArg some ?_)
  change Plan.wrapCalls _ = Plan.wrapCalls _
  rw [CallOptions.unplaced, CallOptions.unplaced, Tree.unplaced_of_same h]

/-- The plan of the command line is the one for what is probed, but for places. -/
theorem MainOption.plan (h : MainOption a m main) : ∃ plan? : Option Plan, a.plan.toOption = plan?.map some ∧
    plan?.map Plan.unplaced = ((main.settingFor m).bind a.planFor?).map Plan.unplaced := by
  cases h with
  | @wrapper w ts given path hwrapper hlimit htext hgiven hsame =>
    have hpath : wrapperPath w = .ok given := by rw [wrapperPath, htext, Option.map_some, hgiven]
    exact ⟨_, plan_of_wrapper hwrapper hpath, (planFor?_same hsame).symm⟩
  | limit hwrapper hlimit hgap hliteral hparse =>
    refine ⟨_, plan_of_limit hwrapper hlimit, ?_⟩
    rw [← limitOf?_of_parse ((parse_of_literal hgap hliteral).1 hparse)]
    rfl
  | negative hwrapper hlimit hgap hliteral hparse =>
    refine ⟨_, plan_of_limit hwrapper hlimit, ?_⟩
    rw [← limitOf?_of_parse ((parse_of_literal hgap hliteral).2 hparse)]
    rfl

/-- The plan of the settings is the one for what is probed. -/
theorem settings_plan (h : a.ListsRead) (hmain : MainOption a m main) {v : Setting} (hv : main.settingFor m = some v) :
    ((a.settings v).plan m).toOption = a.planFor? v := by
  have hcalls (w : Tree) (f : CallOptions → Plan) : (((a.settings v).callOptions w).map f).toOption =
      (filterFor? a.blacklist a.whitelist).map fun filter => f { wrapper := w, ignorePrelude := a.ignorePrelude, filter } := by
    have hcalls := congrArg (Option.map f) (settings_callOptions h v w)
    rw [Option.map_map] at hcalls
    refine Eq.trans ?_ hcalls
    cases (a.settings v).callOptions w <;> rfl
  cases hmain with
  | wrapper =>
    cases hv
    unfold CallArgs.planFor?
    refine (hcalls _ _).trans ?_
    exact Option.map_eq_bind
  | limit | negative =>
    obtain ⟨limit, -, rfl⟩ := Option.map_eq_some_iff.mp (MarkerOption.settingFor_eq_some.mp hv).2
    refine (hcalls (ProfileOptions.ofLimit limit).calls.wrapper
      fun calls => .profile { ProfileOptions.ofLimit limit with calls }).trans ?_
    exact Option.map_eq_bind

/-- Where all options mean something, the lists can be read. -/
theorem listsRead_of_said (h : Says m os s) (hos : os.Perm (main :: a.others)) : a.ListsRead := by
  have hlist {o : MarkerOption} (ho : o ∈ a.others) : ∀ t ∈ o.texts, ∃ p, Pattern.parse t = .ok p := by
    obtain ⟨v, hv⟩ := h.means o (hos.mem_iff.mpr (List.mem_cons_of_mem _ ho))
    exact MarkerOption.patterns_of_settingFor hv
  exact ⟨fun h => patternsOf?_isSome.mpr (hlist (mem_others.mpr (.inr (.inl ⟨h, rfl⟩)))),
    fun h => patternsOf?_isSome.mpr (hlist (mem_others.mpr (.inr (.inr ⟨h, rfl⟩))))⟩

/-- Where there is a filter, the lists can be read. -/
theorem listsRead_of_filter {filter : Filter} (h : filterFor? a.blacklist a.whitelist = some filter) : a.ListsRead := by
  unfold filterFor? at h
  constructor
  · intro hb
    rw [if_neg (by simpa using hb)] at h
    split at h
    · obtain ⟨ps, hps, -⟩ := Option.map_eq_some_iff.mp h
      exact ⟨ps, hps⟩
    · cases h
  · intro hw
    rw [if_neg (show ¬a.whitelist.isEmpty = true by simpa using hw),
      if_neg (show ¬a.whitelist.isEmpty = true by simpa using hw)] at h
    split at h
    · obtain ⟨ps, hps, -⟩ := Option.map_eq_some_iff.mp h
      exact ⟨ps, hps⟩
    · cases h

theorem others_names (a : CallArgs) :
    (a.others.map MarkerOption.name?).Sublist [some .ignorePrelude, some .blacklist, some .whitelist] := by
  unfold CallArgs.others
  rw [List.map_append, List.map_append]
  refine ((List.Sublist.append ?_ ?_).append ?_ :
    List.Sublist _ ([some OptionName.ignorePrelude] ++ [some OptionName.blacklist] ++ [_]))
  all_goals split <;> simp [MarkerOption.name?]

/-- Each option is there once. -/
theorem MainOption.once (hmain : MainOption a m main) : ((main :: a.others).map MarkerOption.name?).Nodup := by
  have hsub := (others_names a).cons_cons main.name?
  cases hmain with
  | wrapper => exact hsub.nodup (by decide : [some OptionName.wrapper, _, _, _].Nodup)
  | limit | negative => exact hsub.nodup (by decide : [some OptionName.timeLimit, _, _, _].Nodup)

theorem others_means {filter : Filter} (h : filterFor? a.blacklist a.whitelist = some filter) (ho : o ∈ a.others) :
    ∃ v, o.settingFor m = some v := by
  have hlists := listsRead_of_filter h
  obtain ⟨-, rfl⟩ | ⟨hne, rfl⟩ | ⟨hne, rfl⟩ := mem_others.mp ho
  · cases m <;> exact ⟨_, rfl⟩
  · obtain ⟨ps, hps⟩ := hlists.blacklist hne
    exact ⟨.blacklist ps, MarkerOption.settingFor_eq_some.mpr ⟨by cases m <;> rfl, by rw [MarkerOption.setting?, hps]; rfl⟩⟩
  · obtain ⟨ps, hps⟩ := hlists.whitelist hne
    exact ⟨.whitelist ps, MarkerOption.settingFor_eq_some.mpr ⟨by cases m <;> rfl, by rw [MarkerOption.setting?, hps]; rfl⟩⟩

/-- Settings that say the same of each option give the same plan, or none both. -/
theorem plan_toOption {s t : Settings} (h : ∀ n, s.find? n = t.find? n) (m : Marker) :
    (s.plan m).toOption = (t.plan m).toOption := by
  refine Option.ext fun plan => ?_
  rw [toOption_eq_some, toOption_eq_some]
  exact ⟨Settings.plan_of_find? h, Settings.plan_of_find? fun n => (h n).symm⟩

theorem planFor?_details {v : Setting} {plan : Plan} (h : a.planFor? v = some plan) : plan.calls.details = none := by
  obtain ⟨filter, -, hv⟩ := Option.bind_eq_some_iff.mp h
  cases v with
  | wrapper | timeLimit =>
    cases hv
    rfl
  | _ => cases hv

/-- The plan of an attribute is the one for what is probed. -/
theorem MainOption.parse (hmain : MainOption a m main) (hos : os.Perm (main :: a.others)) {args : List TokenTree}
    (hargs : Options args os) : (Plan.parse m args).toOption = (main.settingFor m).bind a.planFor? := by
  have hplan {s : Settings} {v : Setting} (hsaid : Says m os s) (hv : main.settingFor m = some v) :
      (s.plan m).toOption = a.planFor? v := by
    rw [← settings_plan (listsRead_of_said hsaid hos) hmain hv]
    exact plan_toOption (find?_settings hos hmain hsaid hv) m
  have hread (plan : Plan) : (Plan.parse m args).toOption = some plan ↔
      ∃ v, main.settingFor m = some v ∧ a.planFor? v = some plan := by
    rw [toOption_eq_some, Plan.parse_ok_iff hargs]
    constructor
    · rintro ⟨s, -, hsaid, hs⟩
      obtain ⟨v, hv⟩ := hsaid.means main (hos.mem_iff.mpr (List.mem_cons_self ..))
      exact ⟨v, hv, by rw [← hplan hsaid hv, hs]; rfl⟩
    · rintro ⟨v, hv, hfor⟩
      obtain ⟨filter, hfilter, -⟩ := Option.bind_eq_some_iff.mp hfor
      obtain ⟨s, hs⟩ := (readSettings_said (m := m) hargs).2 ((hos.map _).nodup_iff.mpr hmain.once) fun o ho => by
        obtain rfl | ho := List.mem_cons.mp (hos.mem_iff.mp ho)
        · exact ⟨v, hv⟩
        · exact others_means hfilter ho
      have hsaid := (readSettings_said hargs).1 s hs
      exact ⟨s, hs, hsaid, toOption_eq_some.mp ((hplan hsaid hv).trans hfor)⟩
  refine Option.ext fun plan => ?_
  rw [hread, Option.bind_eq_some_iff]

/-- Options on the command line and the same ones in an attribute give the same plan, or none both. -/
theorem CallArgs.plan_spelled (hmain : MainOption a m main) (hos : os.Perm (main :: a.others)) {args : List TokenTree}
    (hargs : Options args os) :
    (∃ plan plan', a.plan = .ok (some plan) ∧ Plan.parse m args = .ok plan' ∧ plan'.unplaced = plan.unplaced ∧
      plan'.calls.details = none) ∨ (∃ f, a.plan = .error f) ∧ ∃ e, Plan.parse m args = .error e := by
  obtain ⟨plan?, hcommand, hsame⟩ := hmain.plan
  have hattribute := hmain.parse hos hargs
  cases hplan : (main.settingFor m).bind a.planFor? with
  | none =>
    rw [hplan] at hattribute hsame
    obtain rfl := Option.map_eq_none_iff.mp hsame
    exact .inr ⟨toOption_eq_none.mp hcommand, toOption_eq_none.mp hattribute⟩
  | some plan' =>
    rw [hplan] at hattribute hsame
    obtain ⟨plan, rfl, hplans⟩ := Option.map_eq_some_iff.mp hsame
    obtain ⟨v, hv, hfor⟩ := Option.bind_eq_some_iff.mp hplan
    exact .inl ⟨plan, plan', toOption_eq_some.mp hcommand, toOption_eq_some.mp hattribute, hplans.symm, planFor?_details hfor⟩

/-- A path of one word. -/
def wordPath (pos : Pos) : Tree := .node .path [.absent, .node .list [.node .segment [.leaf (.word "w" pos), .absent]]]

/-- A wrapper, a flag and a pattern on the command line. -/
def wrapperArgs : CallArgs where
  wrapper := some "w"
  ignorePrelude := true
  blacklist := ["b"]

/-- The same in an attribute, with the flag first. -/
def attributeTokens : List TokenTree :=
  [.ident "ignore_builtins" Pos.none] ++ .punct ',' false Pos.none ::
    ([.ident "wrapper" Pos.none, .punct '=' false Pos.none, .ident "w" Pos.none] ++ .punct ',' false Pos.none ::
      [.ident "blacklist" Pos.none, .punct '=' false Pos.none, .group .bracket Pos.none [.literal "\"b\"" Pos.none] Pos.none])

/-- A wrapper, a flag and a pattern give the same plan on the command line and in an attribute. -/
theorem plan_spelled_in_attribute : MainOption wrapperArgs .wrapCalls (.wrapper (wordPath Pos.none)) ∧
    [.ignorePrelude true, .wrapper (wordPath Pos.none), .blacklist ["b"]].Perm
      (.wrapper (wordPath Pos.none) :: wrapperArgs.others) ∧
    Options attributeTokens [.ignorePrelude true, .wrapper (wordPath Pos.none), .blacklist ["b"]] ∧
    ∃ plan plan', wrapperArgs.plan = .ok (some plan) ∧ Plan.parse .wrapCalls attributeTokens = .ok plan' ∧
      plan'.unplaced = plan.unplaced ∧ plan'.calls.details = none := by
  have htext : tokenize "w" = some [.ident "w" ⟨1, 0⟩] := rfl
  have hgiven : Grammar.parsePath [.ident "w" ⟨1, 0⟩] = .ok (wordPath ⟨1, 0⟩) := rfl
  have hmain : MainOption wrapperArgs .wrapCalls (.wrapper (wordPath Pos.none)) :=
    .wrapper rfl rfl htext hgiven rfl
  have hpath : Grammar.parsePath [.ident "w" Pos.none] = .ok (wordPath Pos.none) := rfl
  have hargs : Options attributeTokens [.ignorePrelude true, .wrapper (wordPath Pos.none), .blacklist ["b"]] :=
    .cons (.flag _) _ _ (.cons (.wrapper hpath _ _ _) _ _ (.last (.blacklist (.last rfl _) _ _ _ _ _)))
  refine ⟨hmain, .swap _ _ _, hargs, (CallArgs.plan_spelled hmain (.swap _ _ _) hargs).resolve_right fun hnone => ?_⟩
  have hsome : wrapperArgs.plan.toOption.isSome = true := by decide +kernel
  obtain ⟨⟨f, hf⟩, -⟩ := hnone
  rw [hf] at hsome
  cases hsome

end CallProbe.CommandLine
