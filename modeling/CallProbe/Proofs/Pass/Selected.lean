import CallProbe.CommandLine.Plan
import CallProbe.Proofs.Pass.Opening
import CallProbe.Proofs.Pass.Resolved
import CallProbe.Proofs.Probe.Outcome

/-! # Selections of functions that were found

A selection names functions that a search found. `instrument_selected` says what becomes of a file without markers: each
function of a selected name is probed once, in the order of the file, or the pass fails at the first one that cannot be
probed, for one of the reasons in `Refused`. Functions that are evaluated at compile time are among these: calls inside
them cannot be wrapped. The pass cannot read a text that the search reads only after leaving something out. -/

namespace CallProbe.Project

open Source Probe CommandLine

variable {plan : Plan} {x : Reached}

/-! ### Plans from the command line -/

/-- A limit from the command line comes with the callbacks of the runtime, which can be called as they are written. -/
theorem callees_of_plan {args : CallArgs} {options : ProfileOptions} (h : args.plan = .ok (some (.profile options))) :
    ∀ path, options.below = some path ∨ options.above = some path → isCallee path = true := by
  unfold CallArgs.plan at h
  split at h
  · rename_i w _
    cases hpath : wrapperPath w with
    | error e => simp [hpath, bind, Except.bind] at h
    | ok p =>
      cases hcalls : args.callOptions p with
      | error e => simp [hpath, hcalls, bind, Except.bind] at h
      | ok calls => simp [hpath, hcalls, bind, Except.bind, pure, Except.pure] at h
  · rename_i secs _ _
    cases hcalls : args.callOptions (ProfileOptions.ofLimit .zero).calls.wrapper with
    | error e => simp [hcalls, bind, Except.bind] at h
    | ok calls =>
      cases hlimit : (Time.limitOfSeconds secs).mapError PlanFault.badLimit with
      | error e => simp [hcalls, hlimit, bind, Except.bind] at h
      | ok limit =>
        simp only [hcalls, hlimit, bind, Except.bind, pure, Except.pure, Except.ok.injEq, Option.some.injEq,
          Plan.profile.injEq] at h
        subst h
        rintro path (hpath | hpath) <;> cases hpath <;> decide
  · split at h <;> cases h

/-- A piece of generated code that cannot be read, if the wrapper and the callbacks can be called as they are written: an
    accepted call, or the body of an async function. -/
inductive Unreadable (plan : Plan) (x : Reached) (body : Tree) (fault : Fault) : Prop where
  | call {c : Tree} {site : Call.Site} (hmem : c ∈ (Call.visits body).list) (hsite : Call.Site.of? x.name c = some site)
      (hacc : plan.calls.accepts site.target = true)
      (hread : Grammar.parseExpr (plan.calls.wrapInside x.name c).written = .error fault)
  | future {options : ProfileOptions} (hplan : plan = .profile options) (hasync : x.function.isAsync = true)
      (hread : Grammar.parseBlock (options.calls.wrapTree x.name body).written = .error fault)

theorem unreadable_of_plan {args : CallArgs} (hplan : args.plan = .ok (some plan)) (hplain : isCallee plan.calls.wrapper = true)
    {body : Tree} {fault : Fault} (h : plan.Unread x.name x.function body fault) : Unreadable plan x body fault := by
  cases h with
  | wrapper hmem hsite hacc hcallee hread =>
    rw [hplain] at hcallee
    cases hcallee
  | call hmem hsite hacc hread => exact .call hmem hsite hacc hread
  | callback hprofile hpath hcallee hread =>
    subst hprofile
    rw [callees_of_plan hplan _ hpath] at hcallee
    cases hcallee
  | future hprofile hasync hread => exact .future hprofile hasync hread

/-! ### Functions that cannot be probed -/

/-- Why a function that was selected is not probed, with the failure that says so: it has no body, calls inside it cannot be
    wrapped because it is evaluated at compile time, or generated code cannot be read. -/
inductive Refused (plan : Plan) (x : Reached) : Failure → Prop where
  | noBody (hbody : x.function.body = none) : Refused plan x (.error (.sourceUnavailable x.name))
  | const {body : Tree} (hbody : x.function.body = some body) (hconst : x.function.isConst = true) :
      Refused plan x (.error (.probeFailed x.name .transforming .constFn))
  | piece {body : Tree} {fault : Fault} (hbody : x.function.body = some body) (hconst : x.function.isConst = false)
      (hread : Unreadable plan x body fault) : Refused plan x (.broken fault)
  | whole {body : Tree} {g : Function} {count : Nat} (hbody : x.function.body = some body)
      (hconst : x.function.isConst = false) (htransform : plan.transform x.name x.function = .ok (g, count))
      (hparse : ∀ k, Function.parse g.toTokens ≠ .ok k) :
      Refused plan x (.error (.probeFailed x.name .recompiling .unreadable))

theorem transform_const {name : String} {f : Function} (hconst : f.isConst = true) :
    plan.transform name f = .error (.refused .constFn) := by
  have hcalls : ∀ options : CallOptions, options.apply name f = .error (.refused .constFn) := by
    intro options
    unfold CallOptions.apply
    rw [hconst, if_pos rfl]
  cases plan with
  | wrapCalls options => exact hcalls options
  | profile options =>
    rw [Plan.transform, hcalls]
    rfl

theorem rebuild_function {f : Function} {name before : String} {body : Tree} {p : Probed}
    (h : rebuild f name plan body before = .ok p) : p.function = name := by
  obtain ⟨g, count, after, -, -, -, rfl⟩ := rebuild_eq_ok.mp h
  rfl

theorem probe_function {f : Function} {name : String} {p : Probed} (h : probe f name plan none = .ok p) :
    p.function = name := by
  obtain ⟨_, _, _, -, -, hrebuild⟩ := rebuild_of_probe h
  exact rebuild_function hrebuild

/-- A selected function is probed if it has a body and runs at run time, unless generated code cannot be read or something
    cannot be shown. -/
theorem probe_selected {args : CallArgs} (hplan : args.plan = .ok (some plan)) (hplain : isCallee plan.calls.wrapper = true)
    (x : Reached) :
    (∃ p, probe x.function x.name plan none = .ok p ∧ p.function = x.name ∧ x.function.body.isSome = true ∧
      x.function.isConst = false) ∨
    ∃ e, probe x.function x.name plan none = .error e ∧ ((∃ part, e = .unprintable part) ∨ Refused plan x e) := by
  cases hbody : x.function.body with
  | none =>
    refine .inr ⟨_, ?_, .inr (.noBody hbody)⟩
    unfold probe
    rw [hbody]
  | some body =>
    cases hconst : x.function.isConst with
    | true =>
      refine .inr ?_
      rw [probe_eq hbody rfl]
      cases x.function.render body with
      | error part => exact ⟨_, rfl, .inl ⟨part, rfl⟩⟩
      | ok before => exact ⟨_, rebuild_of_halt before (transform_const hconst), .inr (.const hbody hconst)⟩
    | false =>
      have hending := probe_ending hbody hconst plan x.name
      cases hprobe : probe x.function x.name plan none with
      | ok p => exact .inl ⟨p, rfl, probe_function hprobe, rfl, rfl⟩
      | error e =>
        rw [hprobe] at hending
        refine .inr ⟨e, rfl, ?_⟩
        cases hending with
        | unprintable part => exact .inl ⟨part, rfl⟩
        | broken h => exact .inr (.piece hbody hconst (unreadable_of_plan hplan hplain h))
        | unreadable htransform hread hparse => exact .inr (.whole hbody hconst htransform hparse)

/-! ### Files without markers -/

/-- Whether a function has the name of a target. -/
def isTarget (targets : List String) (x : Reached) : Bool := targets.contains x.name

/-- The functions of a file whose names are among the targets. -/
def selectedIn (targets : List String) (file : Tree) : List Reached := (reachedIn file).filter (isTarget targets)

/-- In a file without markers, a function is asked for what was selected. -/
theorem probes_unmarked {r : Probe.Request} (hplan : r.plan = some plan) (hmarked : (foundAs r.imports x).marked = false) :
    r.probes x = if isTarget r.targets x then (probe x.function x.name plan none).map ([·]) else .ok [] := by
  unfold Request.probes Request.asks isTarget
  rw [markers_eq_nil.mpr hmarked, hplan]
  dsimp only
  cases r.targets.contains x.name with
  | true =>
    change (probe x.function x.name plan none).bind _ = _
    cases probe x.function x.name plan none <;> rfl
  | false => rfl

theorem names_of_probes {r : Probe.Request} {xs : List Reached} {dones : List (List Probed)}
    (hplan : r.plan = some plan) (hmarked : ∀ x ∈ xs, (foundAs r.imports x).marked = false)
    (h : List.Forall₂ (fun x done => r.probes x = .ok done) xs dones) :
    dones.flatten.map (·.function) = (xs.filter (isTarget r.targets)).map (·.name) := by
  induction h with
  | nil => rfl
  | @cons x done xs dones hx _ ih =>
    rw [List.flatten_cons, List.map_append, ih fun y hy => hmarked y (by simp [hy])]
    rw [probes_unmarked hplan (hmarked x (by simp))] at hx
    cases htarget : isTarget r.targets x with
    | true =>
      rw [htarget, if_pos rfl] at hx
      rw [List.filter_cons_of_pos htarget, List.map_cons]
      cases hprobe : probe x.function x.name plan none with
      | error e =>
        rw [hprobe] at hx
        cases hx
      | ok p =>
        rw [hprobe] at hx
        cases hx
        simp [probe_function hprobe]
    | false =>
      rw [htarget, if_neg (by simp)] at hx
      cases hx
      rw [List.filter_cons_of_neg (by simp [htarget])]
      rfl

/-- A function that is reached has no marker if none that was found has. -/
theorem unmarked_of_found {imports : Imports} {found : List Found} {xs : List Reached}
    (hsublist : (listed imports xs).Sublist found) (hmarked : ∀ f ∈ found, f.marked = false) :
    ∀ x ∈ xs, (foundAs imports x).marked = false := by
  intro x hx
  by_contra hne
  have htrue : (foundAs imports x).marked = true := by simpa using hne
  have hmem : foundAs imports x ∈ listed imports xs :=
    List.mem_map.mpr ⟨x, List.mem_filter.mpr ⟨hx, by simp [isListed, htrue]⟩, rfl⟩
  exact hne (hmarked _ (hsublist.subset hmem))

/-- A text of which something is left out for a search is none that a pass can read. -/
theorem instrument_unparsable {path source : String} (h : dropInterpreter source ≠ source) (targets : List String)
    (plan : Option Plan) : instrument path source targets plan = .error (.error (.unparsable path)) := by
  have hfile : fileOfText path source = .error (.unparsable path) := by
    cases hfile : fileOfText path source with
    | ok file => exact absurd (dropInterpreter_of_file hfile) h
    | error e =>
      unfold fileOfText at hfile
      split at hfile <;> cases hfile
      rfl
  rw [instrument, hfile]
  rfl

/-- A pass over a text without markers, with a plan from the command line whose wrapper can be called as it is written. It
    fails if the text names an interpreter or starts with two byte order marks, which the search leaves out. Else, if it
    succeeds, the functions of the selected names were probed, each once and in the order of the file, and all of them
    have a body and run at run time; if it fails, a part of the file cannot be shown, or one of these functions is refused. -/
theorem instrument_selected {path source : String} {found : List Found} {args : CallArgs} (targets : List String)
    (hfound : functionsOf path source = .ok found) (hmarked : ∀ f ∈ found, f.marked = false)
    (hplan : args.plan = .ok (some plan)) (hplain : isCallee plan.calls.wrapper = true) :
    dropInterpreter source ≠ source ∧ instrument path source targets (some plan) = .error (.error (.unparsable path)) ∨
    dropInterpreter source = source ∧ ∃ file, fileOfText path source = .ok file ∧
      ((∃ result, instrument path source targets (some plan) = .ok result ∧
          result.probed.map (·.function) = (selectedIn targets file).map (·.name) ∧
          ∀ x ∈ selectedIn targets file, x.function.body.isSome = true ∧ x.function.isConst = false) ∨
        ∃ e, instrument path source targets (some plan) = .error e ∧
          ((∃ part, e = .unprintable part) ∨ ∃ x ∈ selectedIn targets file, Refused plan x e)) := by
  by_cases htext : dropInterpreter source = source
  case neg => exact .inl ⟨htext, instrument_unparsable htext targets (some plan)⟩
  refine .inr ⟨htext, ?_⟩
  obtain ⟨file, hfile, hsearch⟩ := functionsOf_ok hfound
  rw [htext] at hfile
  have hunmarked := unmarked_of_found hsearch.sublist hmarked
  have hpass := instrumentTree_performs targets (some plan) file
  refine ⟨file, hfile, ?_⟩
  rw [instrument_eq hfile, hpass]
  cases hprobes : (reachedIn file).mapM (requestFor file targets (some plan)).probes with
  | error e =>
    -- Functions without markers are probed only if they are selected, so the failure is that of a selected one.
    refine .inr ⟨e, rfl, ?_⟩
    obtain ⟨before, x, after, hxs, hx, -⟩ := mapM_eq_error hprobes
    have hmem : x ∈ reachedIn file := by simp [hxs]
    rw [probes_unmarked (r := requestFor file targets (some plan)) rfl (hunmarked x hmem)] at hx
    split at hx
    · rename_i htarget
      rcases probe_selected hplan hplain x with ⟨p, hp, -⟩ | ⟨e', he', hwhy⟩
      · rw [hp] at hx
        cases hx
      · rw [he'] at hx
        cases hx
        exact hwhy.imp_right fun h => ⟨x, List.mem_filter.mpr ⟨hmem, htarget⟩, h⟩
    · cases hx
  | ok dones =>
    have hall := mapM_eq_ok.mp hprobes
    rw [Except.map, Except.bind]
    unfold textOfFile
    cases Layout.textOfFile ((requestFor file targets (some plan)).editFile file) with
    | error part => exact .inr ⟨_, rfl, .inl ⟨part, rfl⟩⟩
    | ok text =>
      refine .inl ⟨_, rfl, names_of_probes (r := requestFor file targets (some plan)) rfl hunmarked hall, fun x hx => ?_⟩
      obtain ⟨hmem, htarget⟩ := List.mem_filter.mp hx
      obtain ⟨done, hdone⟩ := mapM_defined hprobes x hmem
      have hprobe := probes_unmarked (r := requestFor file targets (some plan)) rfl (hunmarked x hmem)
      rw [hprobe.trans (if_pos htarget)] at hdone
      rcases probe_selected hplan hplain x with ⟨p, -, -, hbody, hconst⟩ | ⟨e, he, -⟩
      · exact ⟨hbody, hconst⟩
      · rw [he] at hdone
        cases hdone

/-! ### Two files -/

/-- The plan of a wrapper that is named on the command line. -/
theorem plan_of_test {args : CallArgs} {test : Plan → Bool} (h : args.plan.toOption.any (·.any test) = true) :
    ∃ plan, args.plan = .ok (some plan) ∧ test plan = true := by
  cases hplan : args.plan with
  | error e =>
    rw [hplan] at h
    cases h
  | ok plan? =>
    rw [hplan] at h
    cases plan? with
    | none => cases h
    | some plan => exact ⟨plan, rfl, h⟩

/-- The one function of a file is selected and probed. -/
theorem instrument_selected_free : ∃ plan file result, CallArgs.plan { wrapper := some "w" } = .ok (some plan) ∧
    fileOfText "lib.rs" "fn f() {}" = .ok file ∧ instrument "lib.rs" "fn f() {}" ["f"] (some plan) = .ok result ∧
    result.probed.map (·.function) = (selectedIn ["f"] file).map (·.name) := by
  obtain ⟨plan, hplan, htest⟩ := @plan_of_test { wrapper := some "w" } (fun plan => isCallee plan.calls.wrapper &&
    (instrument "lib.rs" "fn f() {}" ["f"] (some plan)).isOk) (by decide +kernel)
  obtain ⟨hplain, hok⟩ := Bool.and_eq_true_iff.mp htest
  have hfound : functionsOf "lib.rs" "fn f() {}" = .ok [⟨"f", false⟩] := by decide +kernel
  have htext : dropInterpreter "fn f() {}" = "fn f() {}" := by decide +kernel
  obtain ⟨hne, -⟩ | ⟨-, file, hfile, ⟨result, hresult, hnames, -⟩ | ⟨e, he, -⟩⟩ :=
    instrument_selected ["f"] hfound (by simp) hplan hplain
  · exact absurd htext hne
  · exact ⟨plan, file, result, hplan, hfile, hresult, hnames⟩
  · rw [he] at hok
    cases hok

/-- A function of a file that starts with the name of an interpreter is found, and the pass cannot read the file. -/
theorem instrument_interpreter : ∃ plan, CallArgs.plan { wrapper := some "w" } = .ok (some plan) ∧
    isCallee plan.calls.wrapper = true ∧
    functionsOf "lib.rs" "#!/usr/bin/env run\nfn f() \x7b g() \x7d" = .ok [⟨"f", false⟩] ∧
    instrument "lib.rs" "#!/usr/bin/env run\nfn f() \x7b g() \x7d" ["f"] (some plan) =
      .error (.error (.unparsable "lib.rs")) := by
  obtain ⟨plan, hplan, hplain⟩ := @plan_of_test { wrapper := some "w" } (fun plan => isCallee plan.calls.wrapper)
    (by decide +kernel)
  have htext : dropInterpreter "#!/usr/bin/env run\nfn f() \x7b g() \x7d" ≠ "#!/usr/bin/env run\nfn f() \x7b g() \x7d" := by
    decide +kernel
  exact ⟨plan, hplan, hplain, by decide +kernel, instrument_unparsable htext ["f"] (some plan)⟩

end CallProbe.Project
