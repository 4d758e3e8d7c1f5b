import CallProbe.Proofs.Pass.Selected
import CallProbe.Proofs.Project.Staged
import Mathlib.Data.List.Lex
import Mathlib.Data.String.Basic

/-! # Targets as they are listed

There is one target for each source that has a marked or a selected function, in the order of their places, and it lists both
kinds of functions by their names, each kind once and in order (`resolveTargets_lists`). A function that is marked and selected
is listed twice: a pass probes it as its markers say, and the plan is for the other functions only. -/

namespace CallProbe.Project

open Source Files Entry Probe CommandLine

/-! ### Names in order -/

variable {names : List String} {name : String}

theorem mem_dropRepeats : name ∈ dropRepeats names ↔ name ∈ names := by
  induction names using dropRepeats.induct with
  | case1 a rest ih =>
    rw [dropRepeats, if_pos rfl, ih]
    simp
  | case2 a b rest hne ih => rw [dropRepeats, if_neg hne, List.mem_cons, ih, List.mem_cons (a := name) (b := a)]
  | case3 rest hshort =>
    rw [dropRepeats]
    exact hshort

/-- Without repeats, texts in order are in strict order. -/
theorem dropRepeats_increasing (h : names.Pairwise (· ≤ ·)) : (dropRepeats names).Pairwise (· < ·) := by
  induction names using dropRepeats.induct with
  | case1 a rest ih =>
    rw [dropRepeats, if_pos rfl]
    exact ih (List.pairwise_cons.mp h).2
  | case2 a b rest hne ih =>
    obtain ⟨hfirst, hrest⟩ := List.pairwise_cons.mp h
    obtain ⟨hsecond, -⟩ := List.pairwise_cons.mp hrest
    rw [dropRepeats, if_neg hne]
    refine List.pairwise_cons.mpr ⟨fun x hx => ?_, ih hrest⟩
    have hb : a < b := lt_of_le_of_ne (hfirst b (by simp)) hne
    rcases List.mem_cons.mp (mem_dropRepeats.mp hx) with rfl | hx
    · exact hb
    · exact lt_of_lt_of_le hb (hsecond x hx)
  | case3 rest hshort =>
    rw [dropRepeats]
    · match rest with
      | [] => exact .nil
      | [a] => exact List.pairwise_singleton _ _
      | a :: b :: rest => exact absurd rfl (hshort a b rest)
    · exact hshort

theorem mem_sortedOnce : name ∈ sortedOnce names ↔ name ∈ names := by
  rw [sortedOnce, mem_dropRepeats, List.mem_mergeSort]

theorem sortedOnce_increasing (names : List String) : (sortedOnce names).Pairwise (· < ·) := by
  refine dropRepeats_increasing ((List.pairwise_mergeSort (fun a b c hab hbc => ?_) (fun a b => ?_) names).imp fun h => ?_)
  · exact decide_eq_true (String.le_trans (of_decide_eq_true hab) (of_decide_eq_true hbc))
  · rw [Bool.or_eq_true, decide_eq_true_iff, decide_eq_true_iff]
    exact String.le_total a b
  · exact of_decide_eq_true h

/-- The order of places is that of lists of names. -/
theorem ltComponents_iff (a b : List String) : Path.lt.ltComponents (a.map .name) (b.map .name) = true ↔ a < b := by
  induction a generalizing b with
  | nil => cases b <;> simp [Path.lt.ltComponents]
  | cons x xs ih =>
    cases b with
    | nil => simp [Path.lt.ltComponents]
    | cons y ys =>
      simp only [List.map_cons, Path.lt.ltComponents, Component.lt, Bool.or_eq_true, Bool.and_eq_true, Bool.not_eq_true',
        decide_eq_true_iff, decide_eq_false_iff_not, ih, List.cons_lt_cons_iff]
      constructor
      · rintro (hlt | ⟨hnot, hlt⟩)
        · exact .inl hlt
        · exact (lt_or_eq_of_le (not_lt.mp hnot)).imp id fun heq => ⟨heq, hlt⟩
      · rintro (hlt | ⟨rfl, hlt⟩)
        · exact .inl hlt
        · exact .inr ⟨lt_irrefl x, hlt⟩

theorem namesLe_iff (a b : List String) : namesLe a b = true ↔ a ≤ b := by
  rw [namesLe, Bool.not_eq_true', ← Bool.not_eq_true, ltComponents_iff, not_lt]

/-! ### Sources -/

variable {d : Disk} {src : List String} {selections : List Selection} {f : File} {files : List (List String × File)}

/-- What a search for sources finds: the files below a directory whose names end in `.rs` and that no rule leaves out. -/
structure IsSource (d : Disk) (src names : List String) (f : File) : Prop where
  below : src <+: names
  there : d.top.look names = some (some f)
  reached : sourceWalk.Reaches d.top src names
  extension : (names.getLast?.bind Path.extension?) = some "rs"

/-- The file that was found, if its name says that it is a source. -/
def sourceFile? : List String × Entry → Option (List String × File)
  | (names, .file n f) => if Path.extension? n = some "rs" then some (names, f) else none
  | (_, .dir _ _) => none

theorem sourceFile?_eq_some {x : List String × Entry} : sourceFile? x = some (names, f) ↔
    x.1 = names ∧ ∃ n, x.2 = .file n f ∧ Path.extension? n = some "rs" := by
  obtain ⟨names', e⟩ := x
  cases e with
  | dir n es => simp [sourceFile?]
  | file n g =>
    by_cases h : Path.extension? n = some "rs"
    · simp [sourceFile?, h, and_comm, eq_comm]
    · simp [sourceFile?, h]

section Sources

variable {n : String} {es : List Entry} (hat : d.top.at? src = .ok (.dir n es)) (hdistinct : d.top.isDistinct = true)

include hat

theorem sourceFiles_ok : ∃ found, sourceWalk.run d.top src = .ok found ∧
    sourceFiles d src = .ok ((found.filterMap sourceFile?).mergeSort fun a b => namesLe a.1 b.1) := by
  obtain ⟨found, hfound⟩ : ∃ found, sourceWalk.run d.top src = .ok found := by
    unfold Walk.run
    rw [hat]
    exact ⟨_, rfl⟩
  refine ⟨found, hfound, ?_⟩
  unfold sourceFiles
  rw [hfound]
  change Except.ok ((found.filterMap _).mergeSort _) = _
  congr 3
  funext ⟨names, e⟩
  cases e <;> rfl

include hdistinct

/-- The sources are found, each once and in the order of their places. -/
theorem sourceFiles_sorted : ∃ files, sourceFiles d src = .ok files ∧ files.Pairwise (fun a b => a.1 < b.1) ∧
    ∀ names f, (names, f) ∈ files ↔ IsSource d src names f := by
  obtain ⟨found, hfound, hfiles⟩ := sourceFiles_ok hat
  refine ⟨_, hfiles, ?_, fun names f => ?_⟩
  · -- Sorted and without repeats is strictly ordered.
    have hsorted : ((found.filterMap sourceFile?).mergeSort fun a b => namesLe a.1 b.1).Pairwise
        fun a b => namesLe a.1 b.1 = true := by
      refine List.pairwise_mergeSort (fun a b c hab hbc => ?_) (fun a b => ?_) _
      · exact (namesLe_iff _ _).mpr (le_trans ((namesLe_iff _ _).mp hab) ((namesLe_iff _ _).mp hbc))
      · rw [Bool.or_eq_true, namesLe_iff, namesLe_iff]
        exact le_total a.1 b.1
    have honce : (found.filterMap sourceFile?).Pairwise fun a b => a.1 ≠ b.1 := by
      refine (Walk.nodup_run hdistinct hfound).filterMap _ fun a a' hne b hb b' hb' => ?_
      rw [← (sourceFile?_eq_some.mp hb).1, ← (sourceFile?_eq_some.mp hb').1]
      exact hne
    have honce' := ((List.mergeSort_perm (found.filterMap sourceFile?) fun a b => namesLe a.1 b.1).pairwise_iff
      fun h => Ne.symm h).mpr honce
    exact hsorted.imp₂ (fun a b hle hne => lt_of_le_of_ne ((namesLe_iff _ _).mp hle) hne) honce'
  · rw [List.mem_mergeSort, List.mem_filterMap]
    constructor
    · rintro ⟨⟨names', x⟩, hx, hfile⟩
      obtain ⟨rfl, m, rfl, hext⟩ := sourceFile?_eq_some.mp hfile
      obtain ⟨hbelow, hne, ⟨e, he, heq⟩, hreaches⟩ := (Walk.mem_run hat hdistinct hfound).mp hx
      have hnames : names' ≠ [] := fun hnil => hne (by rw [hnil] at hbelow ⊢; exact (List.prefix_nil.mp hbelow).symm)
      obtain rfl : e = .file m f := by
        cases e with
        | file k g =>
          cases heq
          rfl
        | dir k inner => cases heq
      exact ⟨hbelow, look_eq_some.mpr ⟨_, he, rfl⟩, hreaches, by rw [at?_name hnames he]; exact hext⟩
    · rintro ⟨hbelow, hlook, hreaches, hext⟩
      obtain ⟨e, he, hcontent⟩ := look_eq_some.mp hlook
      cases e with
      | dir k inner => cases hcontent
      | file k g =>
        obtain rfl : g = f := Option.some.inj hcontent
        have hne : names ≠ src := by
          rintro rfl
          rw [he] at hat
          cases hat
        have hnames : names ≠ [] := fun hnil => hne (by rw [hnil] at hbelow ⊢; exact (List.prefix_nil.mp hbelow).symm)
        rw [at?_name hnames he] at hext
        exact ⟨(names, .file k g), (Walk.mem_run hat hdistinct hfound).mpr ⟨hbelow, hne, ⟨_, he, rfl⟩, hreaches⟩,
          sourceFile?_eq_some.mpr ⟨rfl, k, rfl, hext⟩⟩

end Sources

/-! ### Targets -/

variable {found : List Found} {t : Target} {targets : List Target}

/-- The functions that are found in a source. -/
def foundIn (d : Disk) (names : List String) (f : File) : Except Error (List Found) := do
  let source ← f.read.mapError fun e => .unreadable (d.pathOf names) e.text
  functionsOf (d.pathOf names) source

/-- Whether a function of a source is selected. -/
def isSelected (d : Disk) (selections : List Selection) (names : List String) (x : Found) : Bool :=
  selections.any (·.selects (d.pathOf names) x.name)

/-- The target for a source in which functions were found. -/
def targetFor (d : Disk) (selections : List Selection) (names : List String) (found : List Found) : Target where
  file := names
  functions := sortedOnce ((found.filter (isSelected d selections names)).map (·.name))
  marked := sortedOnce ((found.filter (·.marked)).map (·.name))

/-- The target for a source, if a function in it is marked or selected. -/
def listed? (d : Disk) (selections : List Selection) (names : List String) (found : List Found) : Option Target :=
  if found.any fun x => x.marked || isSelected d selections names x then some (targetFor d selections names found) else none

theorem listed?_eq_some : listed? d selections names found = some t ↔
    (∃ x ∈ found, x.marked = true ∨ isSelected d selections names x = true) ∧ t = targetFor d selections names found := by
  unfold listed?
  rw [Option.ite_none_right_eq_some, List.any_eq_true, Option.some.injEq, eq_comm (a := t)]
  simp only [Bool.or_eq_true]

theorem targetOf?_eq (d : Disk) (selections : List Selection) (names : List String) (f : File) :
    targetOf? d selections names f = (foundIn d names f).map (listed? d selections names) := by
  unfold targetOf? foundIn
  cases f.read with
  | error e => rfl
  | ok source =>
    dsimp only [Except.mapError, bind, Except.bind]
    cases functionsOf (d.pathOf names) source with
    | error e => rfl
    | ok found =>
      have hempty : (((found.filter (·.marked)).map (·.name)).isEmpty &&
          ((found.filter (isSelected d selections names)).map (·.name)).isEmpty) =
          !found.any fun x => x.marked || isSelected d selections names x := by
        induction found with
        | nil => rfl
        | cons x xs ih =>
          rw [List.any_cons, Bool.not_or, ← ih]
          cases hm : x.marked <;> cases hs : isSelected d selections names x <;> simp [hm, hs]
      change Except.ok (if (_ && ((found.filter (isSelected d selections names)).map (·.name)).isEmpty) = true then none
        else some (targetFor d selections names found)) = .ok (listed? d selections names found)
      rw [hempty, listed?]
      cases found.any fun x => x.marked || isSelected d selections names x <;> rfl

/-- What a target lists: the source is found, and some of its functions are marked or selected. -/
def IsListed (d : Disk) (src : List String) (selections : List Selection) (t : Target) : Prop :=
  ∃ f found, IsSource d src t.file f ∧ foundIn d t.file f = .ok found ∧
    (∃ x ∈ found, x.marked = true ∨ isSelected d selections t.file x = true) ∧ t = targetFor d selections t.file found

/-- What is found in the files is what there is, unless nothing is found. -/
theorem resolveTargets_found {files : List (List String × File)} {selections : List Selection} {found : List (Option Target)}
    (hfiles : sourceFiles d src = .ok files) (hall : files.mapM (fun x => targetOf? d selections x.1 x.2) = .ok found) :
    resolveTargets d src selections =
      if (found.filterMap id).isEmpty then .error (.noTargets (wanted selections)) else .ok (found.filterMap id) := by
  unfold resolveTargets
  rw [hfiles]
  change (files.mapM fun x => targetOf? d selections x.1 x.2) >>= _ = _
  rw [hall]
  dsimp only [bind, Except.bind]
  cases found.filterMap id <;> rfl

/-- There is one target for each source with a marked or a selected function, if all sources can be searched. Finding none is
    an error. -/
theorem resolveTargets_listed {n : String} {es : List Entry} (hat : d.top.at? src = .ok (.dir n es))
    (hdistinct : d.top.isDistinct = true) (hsearch : ∀ names f, IsSource d src names f → ∃ found, foundIn d names f = .ok found)
    (selections : List Selection) : ∃ targets, targets.Pairwise (fun t u => t.file < u.file) ∧
      (∀ t, t ∈ targets ↔ IsListed d src selections t) ∧
      resolveTargets d src selections =
        if targets.isEmpty then .error (.noTargets (wanted selections)) else .ok targets := by
  obtain ⟨files, hfiles, hsorted, hmem⟩ := sourceFiles_sorted hat hdistinct
  let target? (x : List String × File) : Option Target := (foundIn d x.1 x.2).toOption.bind (listed? d selections x.1)
  have hfile {x t} (h : target? x = some t) : ∃ found, foundIn d x.1 x.2 = .ok found ∧ listed? d selections x.1 found = some t := by
    obtain ⟨found, hfound, hlisted⟩ := Option.bind_eq_some_iff.mp h
    exact ⟨found, ok_of_toOption hfound, hlisted⟩
  have hall : files.mapM (fun x => targetOf? d selections x.1 x.2) = .ok (files.map target?) := by
    refine mapM_eq_ok.mpr (List.forall₂_map_right_iff.mpr (List.forall₂_same.mpr fun x hx => ?_))
    obtain ⟨found, hfound⟩ := hsearch x.1 x.2 ((hmem x.1 x.2).mp hx)
    change _ = Except.ok ((foundIn d x.1 x.2).toOption.bind _)
    rw [targetOf?_eq, hfound]
    rfl
  refine ⟨files.filterMap target?, ?_, fun t => ?_, ?_⟩
  · refine hsorted.filterMap _ fun x y hlt t ht u hu => ?_
    obtain ⟨_, -, hx⟩ := hfile ht
    obtain ⟨_, -, hy⟩ := hfile hu
    rw [(listed?_eq_some.mp hx).2, (listed?_eq_some.mp hy).2]
    exact hlt
  · rw [List.mem_filterMap]
    constructor
    · rintro ⟨⟨names, f⟩, hx, ht⟩
      obtain ⟨found, hfound, ht⟩ := hfile ht
      obtain ⟨hsome, rfl⟩ := listed?_eq_some.mp ht
      exact ⟨f, found, (hmem names f).mp hx, hfound, hsome, rfl⟩
    · rintro ⟨f, found, hsource, hfound, hsome, heq⟩
      refine ⟨(t.file, f), (hmem t.file f).mpr hsource, Option.bind_eq_some_iff.mpr ⟨found, ?_, listed?_eq_some.mpr ⟨hsome, heq⟩⟩⟩
      change (foundIn d t.file f).toOption = some found
      rw [hfound]
      rfl
  · rw [resolveTargets_found hfiles hall, List.filterMap_map]
    rfl

/-! ### What is announced -/

/-- How many functions a target lists. -/
def listedNames (t : Target) : Nat := t.marked.length + (t.functions.filter (!t.marked.contains ·)).length

/-- How many functions a target lists twice. -/
def listedTwice (t : Target) : Nat := (t.functions.filter (t.marked.contains ·)).length

theorem foundLines_head (src : List String) (targets : List Target) : (foundLines src targets).head? =
    some ("found " ++ toString ((targets.map listedNames).sum + (targets.map listedTwice).sum) ++ " function(s) across " ++
      toString targets.length ++ " file(s)") := by
  have hcount (k : Nat) : targets.foldl (fun n t => n + t.functions.length + t.marked.length) k =
      k + ((targets.map listedNames).sum + (targets.map listedTwice).sum) := by
    induction targets generalizing k with
    | nil => rfl
    | cons t ts ih =>
      have hsplit := List.length_eq_length_filter_add (l := t.functions) (t.marked.contains ·)
      simp only [List.foldl_cons, ih, List.map_cons, List.sum_cons, listedNames, listedTwice]
      omega
  rw [← Nat.zero_add (List.sum _ + _), ← hcount 0]
  rfl

/-! ### What a pass makes of targets -/

/-- Whether a pass over a file probes a function of a name as the plan for the selected ones says. -/
def IsPlanned (file : Tree) (functions : List String) (plan : Plan) (name : String) : Prop :=
  ∃ x ∈ reachedIn file, x.name = name ∧
    (requestFor file functions (some plan)).asks x.name x.function = [.selected plan] ∧
    ∃ p, probe x.function x.name plan none = .ok p

theorem unmarked_of_selected {r : Probe.Request} {x : Reached} {plan : Plan} (h : r.asks x.name x.function = [.selected plan]) :
    x.name ∈ r.targets ∧ (foundAs r.imports x).marked = false := by
  unfold Request.asks at h
  split at h
  · rename_i hmarkers
    refine ⟨?_, markers_eq_nil.mp hmarkers⟩
    split at h
    · rename_i htarget
      simpa using htarget
    · cases h
  · rename_i hmarkers
    have hmem : Ask.selected plan ∈ r.markers x.function.attrs := by rw [h]; exact List.mem_singleton_self _
    obtain ⟨a, -, ha⟩ := List.mem_filterMap.mp hmem
    cases hm : r.imports.marker? a <;> rw [hm] at ha <;> cases ha

/-- In a pass that succeeds, the plan is for the functions of the selected names that have no marker. -/
theorem isPlanned_iff {file : Tree} {functions : List String} {plan : Plan} {dones : List (List Probed)}
    (h : (reachedIn file).mapM (requestFor file functions (some plan)).probes = .ok dones) (name : String) :
    IsPlanned file functions plan name ↔
      name ∈ functions ∧ ∃ x ∈ reachedIn file, x.name = name ∧ (foundAs (.ofFile file) x).marked = false := by
  constructor
  · rintro ⟨x, hx, rfl, hasks, -⟩
    obtain ⟨htarget, hunmarked⟩ := unmarked_of_selected hasks
    exact ⟨htarget, x, hx, rfl, hunmarked⟩
  · rintro ⟨htarget, x, hx, rfl, hunmarked⟩
    have hasks : (requestFor file functions (some plan)).asks x.name x.function = [.selected plan] := by
      unfold Request.asks
      rw [(markers_eq_nil (r := requestFor file functions (some plan))).mpr hunmarked]
      exact if_pos (List.elem_eq_true_of_mem htarget)
    obtain ⟨done, hdone⟩ := mapM_defined h x hx
    refine ⟨x, hx, rfl, hasks, ?_⟩
    rw [Request.probes, hasks, Ask.applyAll_singleton, Ask.apply] at hdone
    cases hprobe : probe x.function x.name plan none with
    | error e =>
      rw [hprobe] at hdone
      cases hdone
    | ok p => exact ⟨p, rfl⟩

theorem instrument_probes {path source : String} {functions : List String} {plan : Option Plan} {result : Instrumented}
    (h : instrument path source functions plan = .ok result) : ∃ file dones, fileOfText path source = .ok file ∧
      (reachedIn file).mapM (requestFor file functions plan).probes = .ok dones := by
  unfold instrument at h
  cases hfile : fileOfText path source with
  | error e =>
    rw [hfile] at h
    cases h
  | ok file =>
    simp only [hfile, Except.mapError, bind, Except.bind, instrumentTree_performs] at h
    cases hall : (reachedIn file).mapM (requestFor file functions plan).probes with
    | error e =>
      rw [hall] at h
      cases h
    | ok dones => exact ⟨file, dones, rfl, hall⟩

theorem fileOfText_path {path source : String} {file : Tree} (h : fileOfText path source = .ok file) (path' : String) :
    fileOfText path' source = .ok file := by
  unfold fileOfText at h ⊢
  split at h
  · exact h
  · cases h

/-- What a target lists, as it was found in its source. -/
structure Lists (d : Disk) (src : List String) (selections : List Selection) (t : Target) (f : File) (found : List Found) :
    Prop where
  source : IsSource d src t.file f
  searched : foundIn d t.file f = .ok found
  markedIncreasing : t.marked.Pairwise (· < ·)
  marked : ∀ name, name ∈ t.marked ↔ ∃ x ∈ found, x.marked = true ∧ x.name = name
  functionsIncreasing : t.functions.Pairwise (· < ·)
  functions : ∀ name, name ∈ t.functions ↔ ∃ x ∈ found, isSelected d selections t.file x = true ∧ x.name = name

theorem IsListed.lists (h : IsListed d src selections t) : ∃ f found, Lists d src selections t f found := by
  obtain ⟨f, found, hsource, hfound, -, heq⟩ := h
  have hnames (p : Found → Bool) (name : String) :
      name ∈ sortedOnce ((found.filter p).map (·.name)) ↔ ∃ x ∈ found, p x = true ∧ x.name = name := by
    rw [mem_sortedOnce, List.mem_map]
    simp only [List.mem_filter, and_assoc]
  refine ⟨f, found, hsource, hfound, ?_, ?_, ?_, ?_⟩
  · rw [heq]
    exact sortedOnce_increasing _
  · rw [heq]
    exact hnames (·.marked)
  · rw [heq]
    exact sortedOnce_increasing _
  · rw [heq]
    exact hnames (isSelected d selections t.file)

theorem foundIn_ok (h : foundIn d names f = .ok found) : ∃ text file, f.read = .ok text ∧
    fileOfText (d.pathOf names) (dropInterpreter text) = .ok file ∧
    Interleaves (listed (.ofFile file) (reachedIn file)) (straysIn (.ofFile file) file) found := by
  unfold foundIn at h
  cases hread : f.read with
  | error e =>
    rw [hread] at h
    cases h
  | ok text =>
    rw [hread] at h
    obtain ⟨file, hfile, hfound⟩ := functionsOf_ok h
    exact ⟨text, file, rfl, hfile, hfound⟩

/-- What a pass makes of a target. Of the functions that are listed as selected, the plan is for those of a name that some
    function without a marker has. In a file without strays, that fails only for names that are listed as marked as well. -/
structure Passes (t : Target) (file : Tree) (plan : Plan) : Prop where
  planned : ∀ name, IsPlanned file t.functions plan name ↔
    name ∈ t.functions ∧ ∃ x ∈ reachedIn file, x.name = name ∧ (foundAs (.ofFile file) x).marked = false
  unmarked : straysIn (.ofFile file) file = [] → ∀ name ∈ t.functions, name ∉ t.marked → IsPlanned file t.functions plan name

theorem passes_of_probes {file : Tree} {plan : Plan} {dones : List (List Probed)} (hlists : Lists d src selections t f found)
    (hfound : Interleaves (listed (.ofFile file) (reachedIn file)) (straysIn (.ofFile file) file) found)
    (h : (reachedIn file).mapM (requestFor file t.functions (some plan)).probes = .ok dones) : Passes t file plan where
  planned := isPlanned_iff h
  unmarked hstrays name hname hnew := by
    obtain ⟨x, hx, -, rfl⟩ := (hlists.functions name).mp hname
    have hunmarked : x.marked = false := by
      by_contra hne
      exact hnew ((hlists.marked x.name).mpr ⟨x, hx, by simpa using hne, rfl⟩)
    rw [hfound.eq_iff.mpr hstrays] at hx
    obtain ⟨y, hy, rfl⟩ := List.mem_map.mp hx
    exact (isPlanned_iff h _).mpr ⟨hname, y, (List.mem_filter.mp hy).1, rfl, hunmarked⟩

/-- Where all sources can be searched, there is one target for each source with a marked or a selected function, in the order
    of their places; finding none is an error. A target lists the marked and the selected functions by their names, each once
    and in order. What is announced counts the functions that are listed, and those again that are listed as both. A pass
    probes a function as the plan says if it is listed as selected and some function of its name has no marker. -/
theorem resolveTargets_lists {n : String} {es : List Entry} (hat : d.top.at? src = .ok (.dir n es))
    (hdistinct : d.top.isDistinct = true) (hsearch : ∀ names f, IsSource d src names f → ∃ found, foundIn d names f = .ok found)
    (selections : List Selection) : ∃ targets : List Target,
      resolveTargets d src selections =
        (if targets.isEmpty then .error (.noTargets (wanted selections)) else .ok targets) ∧
      targets.Pairwise (fun t u => t.file < u.file) ∧
      (∀ names, (∃ t ∈ targets, t.file = names) ↔ ∃ f found, IsSource d src names f ∧ foundIn d names f = .ok found ∧
        ∃ x ∈ found, x.marked = true ∨ isSelected d selections names x = true) ∧
      (foundLines src targets).head? = some ("found " ++
        toString ((targets.map listedNames).sum + (targets.map listedTwice).sum) ++ " function(s) across " ++
        toString targets.length ++ " file(s)") ∧
      ∀ t ∈ targets, ∃ f found text file, Lists d src selections t f found ∧ f.read = .ok text ∧
        fileOfText (d.pathOf t.file) (dropInterpreter text) = .ok file ∧
        ∀ plan path result, instrument path text t.functions (some plan) = .ok result → Passes t file plan := by
  obtain ⟨targets, hordered, hmem, hresolve⟩ := resolveTargets_listed hat hdistinct hsearch selections
  refine ⟨targets, hresolve, hordered, fun names => ?_, foundLines_head src targets, fun t ht => ?_⟩
  · constructor
    · rintro ⟨t, ht, rfl⟩
      obtain ⟨f, found, hsource, hfound, hsome, -⟩ := (hmem t).mp ht
      exact ⟨f, found, hsource, hfound, hsome⟩
    · rintro ⟨f, found, hsource, hfound, hsome⟩
      exact ⟨targetFor d selections names found, (hmem _).mpr ⟨f, found, hsource, hfound, hsome, rfl⟩, rfl⟩
  · obtain ⟨f, found, hlists⟩ := ((hmem t).mp ht).lists
    obtain ⟨text, file, hread, hfile, hfound⟩ := foundIn_ok hlists.searched
    refine ⟨f, found, text, file, hlists, hread, hfile, fun plan path result hresult => ?_⟩
    obtain ⟨file', dones, hfile', hprobes⟩ := instrument_probes hresult
    rw [dropInterpreter_of_file hfile'] at hfile
    obtain rfl : file' = file := Except.ok.inj ((fileOfText_path hfile' _).symm.trans hfile)
    exact passes_of_probes hlists hfound hprobes

/-- A project with one source. -/
def oneSource (text : String) : Disk := ⟨"/project", .dir "" [.dir "src" [.file "a.rs" (File.ofText text)]]⟩

theorem oneSource_dir (text : String) :
    (oneSource text).top.at? ["src"] = .ok (.dir "src" [.file "a.rs" (File.ofText text)]) := rfl

theorem oneSource_file (text : String) : (oneSource text).top.look ["src", "a.rs"] = some (some (File.ofText text)) := rfl

theorem read_ofText (text : String) : (File.ofText text).read = .ok text := by
  have hreadable : (File.ofText text).isReadable = true := (by decide : Nat.testBit 0o644 8 = true)
  unfold File.read
  rw [hreadable, File.ofText, fromUTF8?_toUTF8]
  rfl

theorem searched_of_test {n : String} {es : List Entry} (hat : d.top.at? src = .ok (.dir n es))
    (hdistinct : d.top.isDistinct = true)
    (h : (sourceFiles d src).toOption.any (fun files => files.all fun x => (foundIn d x.1 x.2).isOk) = true) :
    ∀ names f, IsSource d src names f → ∃ found, foundIn d names f = .ok found := by
  obtain ⟨files, hfiles, -, hmem⟩ := sourceFiles_sorted hat hdistinct
  intro names f hsource
  rw [hfiles] at h
  have hok := List.all_eq_true.mp h _ ((hmem names f).mpr hsource)
  exact isOk_iff.mp hok

/-- A source with two functions. -/
def separate : String := "fn f() \x7b\x7d\nfn g() \x7b\x7d"

/-- If one of them is selected, that one is listed, and the plan is for it. -/
theorem resolveTargets_lists_separate : ∃ plan file,
    resolveTargets (oneSource separate) ["src"] [.byName "f"] = .ok [⟨["src", "a.rs"], ["f"], []⟩] ∧
    CallArgs.plan { wrapper := some "w" } = .ok (some plan) ∧ fileOfText "a.rs" separate = .ok file ∧
    IsPlanned file ["f"] plan "f" := by
  obtain ⟨plan, hplan, hok⟩ := @plan_of_test { wrapper := some "w" }
    (fun plan => (instrument "a.rs" separate ["f"] (some plan)).isOk) (by decide +kernel)
  obtain ⟨result, hresult, -⟩ := @ok_of_any _ _ (instrument "a.rs" separate ["f"] (some plan)) (fun _ => true) (by
    cases hrun : instrument "a.rs" separate ["f"] (some plan) with
    | error e =>
      rw [hrun] at hok
      cases hok
    | ok result => rfl)
  have hdistinct : (oneSource separate).top.isDistinct = true := by decide +kernel
  have hresolve : resolveTargets (oneSource separate) ["src"] [.byName "f"] = .ok [⟨["src", "a.rs"], ["f"], []⟩] :=
    ok_of_toOption (by decide +kernel)
  obtain ⟨targets, htargets, -, -, -, hpasses⟩ := resolveTargets_lists (oneSource_dir separate) hdistinct
    (searched_of_test (oneSource_dir separate) hdistinct (by decide +kernel)) [.byName "f"]
  obtain ⟨file, hfile, hstrays⟩ := @ok_of_any _ _ (fileOfText "a.rs" separate)
    (fun file => straysIn (.ofFile file) file == []) (by decide +kernel)
  have hmem : ⟨["src", "a.rs"], ["f"], []⟩ ∈ targets := by
    rw [hresolve] at htargets
    split at htargets
    · cases htargets
    · rw [← Except.ok.inj htargets]
      exact List.mem_singleton_self _
  obtain ⟨f, found, text, file', hlists, hread, hfile', hpass⟩ := hpasses _ hmem
  obtain rfl : File.ofText separate = f :=
    Option.some.inj (Option.some.inj ((oneSource_file separate).symm.trans hlists.source.there))
  obtain rfl : separate = text := Except.ok.inj ((read_ofText separate).symm.trans hread)
  have hdrop : dropInterpreter separate = separate := by decide +kernel
  rw [hdrop] at hfile'
  obtain rfl : file = file' := Except.ok.inj ((fileOfText_path hfile _).symm.trans hfile')
  exact ⟨plan, file, hresolve, hplan, hfile,
    (hpass plan "a.rs" result hresult).unmarked (by simpa using hstrays) "f" (by simp) (by simp)⟩

/-- A function that is marked and selected is listed as both and announced as two, and no plan is for it. -/
theorem resolveTargets_marked : ∃ file,
    resolveTargets (oneSource "#[shallow_runtime::wrap_calls(wrapper = w)]\nfn f() \x7b\x7d") ["src"] [.byName "f"] =
      .ok [⟨["src", "a.rs"], ["f"], ["f"]⟩] ∧
    (foundLines ["src"] [⟨["src", "a.rs"], ["f"], ["f"]⟩]).head? = some "found 2 function(s) across 1 file(s)" ∧
    fileOfText "a.rs" "#[shallow_runtime::wrap_calls(wrapper = w)]\nfn f() \x7b\x7d" = .ok file ∧
    (reachedIn file).map (·.name) = ["f"] ∧ ∀ plan, ¬IsPlanned file ["f"] plan "f" := by
  obtain ⟨file, hfile, htest⟩ := @ok_of_any _ _ (fileOfText "a.rs" "#[shallow_runtime::wrap_calls(wrapper = w)]\nfn f() \x7b\x7d")
    (fun file => (reachedIn file).map (·.name) == ["f"] && (reachedIn file).all fun x => (foundAs (.ofFile file) x).marked)
    (by decide +kernel)
  simp only [Bool.and_eq_true, beq_iff_eq, List.all_eq_true] at htest
  refine ⟨file, ok_of_toOption (by decide +kernel), by decide +kernel, hfile, htest.1, fun plan => ?_⟩
  rintro ⟨x, hx, -, hasks, -⟩
  have hunmarked : (foundAs (.ofFile file) x).marked = false := (unmarked_of_selected hasks).2
  rw [htest.2 x hx] at hunmarked
  cases hunmarked

end CallProbe.Project
