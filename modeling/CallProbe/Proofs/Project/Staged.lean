import CallProbe.Proofs.Project.Arrives
import CallProbe.Proofs.Project.Copied
import CallProbe.Proofs.Project.Probed

/-! # Targets in a copy

The file of a target was found by a walk over the sources; the copy of the project was made by another walk. Main statement:
which files of targets a copy holds, that these are the same as in the project, and that probing them never fails because one
cannot be read (`resolved_staged`). -/

namespace CallProbe.Project

open Files Entry Probe

variable {d : Disk} {src project names : List String} {selections : List Selection} {targets : List Target} {t : Target}
  {f : File} {n : String} {es : List Entry} {place : String} {s : Staged}

/-! ### Targets -/

section Targets

variable (hat : d.top.at? src = .ok (.dir n es)) (hdistinct : d.top.isDistinct = true)

include hat hdistinct

theorem sourceFiles_files {found : List (List String × File)} (h : sourceFiles d src = .ok found) (hf : (names, f) ∈ found) :
    src <+: names ∧ d.top.look names = some (some f) ∧ sourceWalk.Reaches d.top src names := by
  unfold sourceFiles at h
  split at h
  · cases h
  · rename_i all hrun
    have h := Except.ok.inj h
    rw [← h] at hf
    have hf := List.mem_mergeSort.1 hf
    obtain ⟨⟨names', x⟩, hx, heq⟩ := List.mem_filterMap.1 hf
    apply (Walk.mem_run_file hat hdistinct hrun).1
    dsimp only at heq
    split at heq
    · split at heq
      · cases heq
        exact ⟨_, hx, rfl⟩
      · cases heq
    · cases heq

omit hat hdistinct in
theorem targetOf?_inv (h : targetOf? d selections names f = .ok (some t)) : t.file = names ∧ ∃ text, f.read = .ok text := by
  unfold targetOf? at h
  cases hread : f.read with
  | error err =>
    rw [hread] at h
    cases h
  | ok text =>
    rw [hread] at h
    dsimp only [Except.mapError, bind, Except.bind] at h
    split at h
    · cases h
    · have h := Except.ok.inj h
      split at h
      · cases h
      · cases h
        exact ⟨rfl, text, rfl⟩

/-- The file of a target holds text, and the walk over the sources reaches it. -/
theorem resolveTargets_inv (h : resolveTargets d src selections = .ok targets) (ht : t ∈ targets) :
    ∃ f text, d.top.look t.file = some (some f) ∧ f.read = .ok text ∧ src <+: t.file ∧ sourceWalk.Reaches d.top src t.file := by
  unfold resolveTargets at h
  cases hfiles : sourceFiles d src with
  | error err =>
    rw [hfiles] at h
    cases h
  | ok found =>
    simp only [hfiles, bind, Except.bind] at h
    split at h
    · cases h
    · rename_i ts hall
      have htargets : targets = ts.filterMap id := by
        split at h
        · cases h
        · exact (Except.ok.inj h).symm
      rw [htargets] at ht
      obtain ⟨o, ho, hid⟩ := List.mem_filterMap.1 ht
      obtain rfl : o = some t := hid
      obtain ⟨⟨names, f⟩, hf, ho⟩ := mapM_origin hall _ ho
      obtain ⟨hfile, text, htext⟩ : t.file = names ∧ ∃ text, f.read = .ok text := targetOf?_inv ho
      obtain ⟨hsrc, hlook, hreaches⟩ := sourceFiles_files hat hdistinct hfiles hf
      rw [← hfile] at hsrc hlook hreaches
      exact ⟨f, text, hlook, htext, hsrc, hreaches⟩

end Targets

/-! ### Places -/

/-- The directory that is copied for a project. -/
def stagedRoot (d : Disk) (project : List String) : List String := (enclosingWorkspace? d project).getD project

theorem stagedRoot_prefix : stagedRoot d project <+: project := by
  unfold stagedRoot
  cases h : enclosingWorkspace? d project with
  | none => exact List.prefix_refl _
  | some root =>
    obtain ⟨k, -, rfl⟩ := List.mem_map.1 (List.mem_of_find?_eq_some h)
    exact List.take_prefix _ _

/-- Whether a copy knows the name of its package: if and only if a whole workspace is copied. -/
def Names (d : Disk) (project : List String) (package : Option String) : Prop :=
  enclosingWorkspace? d project = none ∧ package = none ∨
    ∃ root name, enclosingWorkspace? d project = some root ∧ packageName d project = .ok name ∧ package = some name

/-- A project is copied if its directory can be, and if it has a name where that is needed. -/
theorem copy_eq_ok : Staged.copy d project place = .ok s ↔ ∃ top package, copyTree d.top (stagedRoot d project) = .ok top ∧
    Names d project package ∧ s = ⟨⟨place, top⟩, project.drop (stagedRoot d project).length, package⟩ := by
  unfold Staged.copy stagedRoot Names
  cases hroot : enclosingWorkspace? d project with
  | none =>
    cases hcopy : copyTree d.top project with
    | error err => simp [hcopy, pure, Except.pure, Except.mapError, bind, Except.bind]
    | ok top => simp [hcopy, pure, Except.pure, Except.mapError, bind, Except.bind, eq_comm]
  | some root =>
    cases hname : packageName d project with
    | error err => simp [bind, Except.bind]
    | ok name =>
      cases hcopy : copyTree d.top root with
      | error err => simp [hcopy, pure, Except.pure, Except.mapError, bind, Except.bind]
      | ok top => simp [hcopy, pure, Except.pure, Except.mapError, bind, Except.bind, eq_comm]

/-! ### Sources in a copy -/

open CommandLine in
theorem sourceDir_inv (h : sourceDir d project = .ok src) :
    src = project ++ ["src"] ∧ ∃ n es, d.top.at? src = .ok (.dir n es) := by
  unfold sourceDir at h
  dsimp only at h
  split at h
  · rename_i hdir
    cases h
    unfold isDirAt at hdir
    split at hdir
    · exact ⟨rfl, _, _, by assumption⟩
    · cases hdir
  · cases h

theorem drop_append_drop {root project names : List String} (hroot : root <+: project) (hproject : project <+: names) :
    project.drop root.length ++ names.drop project.length = names.drop root.length := by
  obtain ⟨r, rfl⟩ := hroot
  obtain ⟨t, rfl⟩ := hproject
  rw [List.drop_left, List.drop_left, List.append_assoc, List.drop_left]

theorem stagedRoot_dir (hsrc : CommandLine.sourceDir d project = .ok src) :
    ∃ n es, d.top.at? (stagedRoot d project) = .ok (.dir n es) := by
  obtain ⟨rfl, n, es, hat⟩ := sourceDir_inv hsrc
  obtain ⟨r, hr⟩ : stagedRoot d project <+: project := stagedRoot_prefix
  have hat' : d.top.at? (stagedRoot d project ++ (r ++ ["src"])) = .ok (.dir n es) := by
    rw [← List.append_assoc, hr]
    exact hat
  exact at?_dir_of_append (by simp) hat'

/-- The file of a target is in a copy what it is in the tree, if it arrives; otherwise it is missing. -/
theorem target_in_copy (hdistinct : d.top.isDistinct = true) (hsrc : CommandLine.sourceDir d project = .ok src)
    (htargets : resolveTargets d src selections = .ok targets) (ht : t ∈ targets)
    (hcopy : Staged.copy d project place = .ok s) : ∃ f text, d.top.look t.file = some (some f) ∧ f.read = .ok text ∧
      t.file.drop project.length ≠ [] ∧
      (Arrives d.top (stagedRoot d project) src t.file → s.disk.top.look (s.names (t.file.drop project.length)) = some (some f)) ∧
      (¬Arrives d.top (stagedRoot d project) src t.file →
        s.disk.top.at? (s.names (t.file.drop project.length)) = .error .missing) := by
  obtain ⟨rootName, rootEntries, hroot⟩ := stagedRoot_dir hsrc
  obtain ⟨rfl, n, es, hat⟩ := sourceDir_inv hsrc
  obtain ⟨f, text, hlook, hread, hbelow, hreaches⟩ := resolveTargets_inv hat hdistinct htargets ht
  obtain ⟨copy, package, htop, -, rfl⟩ := copy_eq_ok.1 hcopy
  have hproject : project <+: t.file := (List.prefix_append _ _).trans hbelow
  have hprefix : stagedRoot d project <+: project := stagedRoot_prefix
  obtain ⟨q, hq⟩ := hprefix.trans hproject
  have hnames : project.drop (stagedRoot d project).length ++ t.file.drop project.length = q := by
    rw [drop_append_drop hprefix hproject, ← hq, List.drop_left]
  have hfiles : ∀ g, copy.look q = some (some g) ↔ d.top.look t.file = some (some g) ∧
      Arrives d.top (stagedRoot d project) (project ++ ["src"]) t.file := by
    intro g
    rw [copyTree_files hroot hdistinct htop, hq, reaches_iff_arrives hprefix hreaches hbelow]
  -- A copy is a part of the tree, so where the file does not arrive nothing else stands in its place.
  have hpart : PartOf copy (.dir rootName rootEntries) := copyTree_partOf hroot hdistinct htop
  have hinside : (Entry.dir rootName rootEntries).look q = some (some f) := by
    rw [← hq, look_append, hroot] at hlook
    exact hlook
  refine ⟨f, text, hlook, hread, ?_, fun harrives => ?_, fun hlost => ?_⟩
  · intro hnil
    have hlong := hbelow.length_le
    rw [List.length_append, List.length_singleton] at hlong
    have := List.drop_eq_nil_iff.1 hnil
    omega
  · change copy.look (project.drop (stagedRoot d project).length ++ t.file.drop project.length) = some (some f)
    rw [hnames]
    exact (hfiles f).2 ⟨hlook, harrives⟩
  · change copy.at? (project.drop (stagedRoot d project).length ++ t.file.drop project.length) = .error .missing
    rw [hnames]
    refine at?_missing (fun p r hp hr g hg => ?_) ?_
    · have hdir : (Entry.dir rootName rootEntries).look p = some none := look_dir_of_append hr (hp ▸ hinside)
      rw [hpart p _ hg] at hdir
      cases hdir
    · cases hcopied : copy.look q with
      | none => rfl
      | some k =>
        obtain rfl : k = some f := Option.some.inj ((hpart q k hcopied).symm.trans hinside)
        exact absurd ((hfiles f).1 hcopied).2 hlost

/-- Whether a project can be copied: every file that is to be copied can be read, and the package has a name if it is copied
with its workspace. -/
structure CanCopy (d : Disk) (project : List String) : Prop where
  readable : ∀ names f, stagedRoot d project <+: names → d.top.file? names = .ok f →
    stagingWalk.Reaches d.top (stagedRoot d project) names → f.isReadable = true
  named : enclosingWorkspace? d project = none ∨ ∃ name, packageName d project = .ok name

theorem copy_ok_iff (hdistinct : d.top.isDistinct = true) (hsrc : CommandLine.sourceDir d project = .ok src) :
    (∃ s, Staged.copy d project place = .ok s) ↔ CanCopy d project := by
  obtain ⟨n, es, hroot⟩ := stagedRoot_dir hsrc
  have hnames : (∃ package, Names d project package) ↔
      enclosingWorkspace? d project = none ∨ ∃ name, packageName d project = .ok name := by
    unfold Names
    cases enclosingWorkspace? d project with
    | none => simp
    | some root => simp
  have hcopy := copyTree_ok_iff hroot hdistinct
  constructor
  · rintro ⟨s, hs⟩
    obtain ⟨top, package, htop, hpackage, -⟩ := copy_eq_ok.1 hs
    exact ⟨fun names f hn hf => hcopy.1 ⟨top, htop⟩ names f hn (look_eq_file.2 hf), hnames.1 ⟨package, hpackage⟩⟩
  · rintro ⟨hread, hnamed⟩
    obtain ⟨top, htop⟩ := hcopy.2 fun names f hn hf => hread names f hn (look_eq_file.1 hf)
    obtain ⟨package, hpackage⟩ := hnames.2 hnamed
    exact ⟨_, copy_eq_ok.2 ⟨top, package, htop, hpackage, rfl⟩⟩

/-- What becomes of the files of targets. A project can be copied if and only if what is to be copied can be read and the
package has a name where that is needed. In the copy, the file of a target is the same as in the project if and only if it
arrives; one that does not arrive is missing, and probing it fails for that reason. If all arrive, the probes read all
files. -/
theorem resolved_staged (hdistinct : d.top.isDistinct = true) (hsrc : CommandLine.sourceDir d project = .ok src)
    (htargets : resolveTargets d src selections = .ok targets) :
    ((∃ s, Staged.copy d project place = .ok s) ↔ CanCopy d project) ∧
    ∀ s, Staged.copy d project place = .ok s →
      (∀ t ∈ targets, (∃ f, d.top.file? t.file = .ok f ∧ s.disk.top.file? (s.names (t.file.drop project.length)) = .ok f) ↔
        Arrives d.top (stagedRoot d project) src t.file) ∧
      (∀ t ∈ targets, ¬Arrives d.top (stagedRoot d project) src t.file → ∀ plan, CommandLine.probeStaged s project plan t =
        .error (.error (.unreadable (Text.joinWith "/" (t.file.drop project.length)) AccessError.missing.text))) ∧
      ((∀ t ∈ targets, Arrives d.top (stagedRoot d project) src t.file) → ∀ plan path reason,
        CommandLine.probeAll project plan targets s false ≠ .error (.error (.unreadable path reason))) := by
  refine ⟨copy_ok_iff hdistinct hsrc, fun s hs => ⟨fun t ht => ?_, fun t ht hlost plan => ?_, fun hall plan path reason h => ?_⟩⟩
  · obtain ⟨f, text, hlook, hread, -, harrives, hlost⟩ := target_in_copy hdistinct hsrc htargets ht hs
    constructor
    · rintro ⟨g, -, hg⟩
      by_contra hnot
      unfold Entry.file? at hg
      rw [hlost hnot] at hg
      cases hg
    · intro h
      exact ⟨f, look_eq_file.1 hlook, look_eq_file.1 (harrives h)⟩
  · obtain ⟨-, -, -, -, -, -, hmissing⟩ := target_in_copy hdistinct hsrc htargets ht hs
    exact probeStaged_missing (hmissing hlost)
  · have hread : ∀ t ∈ targets, CanRead s project t := by
      intro t ht
      obtain ⟨f, text, -, hread, hne, harrives, -⟩ := target_in_copy hdistinct hsrc htargets ht hs
      exact ⟨hne, f, text, harrives (hall t ht), hread⟩
    have := probeAll_unread hread h
    cases this

/-- A project in which a rule for version control leaves out a source file, and another rule keeps it. -/
def keeping : Disk := ⟨"/project", .dir "" [.file ".gitignore" (File.ofText "gen.rs\n"),
  .dir "src" [.file ".ignore" (File.ofText "!gen.rs\n"), .file "gen.rs" (File.ofText "fn f() {}")]]⟩

theorem resolved_staged_kept : keeping.top.isDistinct = true ∧ CommandLine.sourceDir keeping [] = .ok ["src"] ∧
    resolveTargets keeping ["src"] [.byName "f"] = .ok [⟨["src", "gen.rs"], ["f"], []⟩] ∧
    ∃ s, Staged.copy keeping [] "/copy" = .ok s ∧
      ∃ f, keeping.top.file? ["src", "gen.rs"] = .ok f ∧ s.disk.top.file? (s.names ["src", "gen.rs"]) = .ok f := by
  have hdistinct : keeping.top.isDistinct = true := by decide +kernel
  have hsrc : CommandLine.sourceDir keeping [] = .ok ["src"] := ok_of_toOption (by decide +kernel)
  have htargets : resolveTargets keeping ["src"] [.byName "f"] = .ok [⟨["src", "gen.rs"], ["f"], []⟩] :=
    ok_of_toOption (by decide +kernel)
  have hok : (Staged.copy keeping [] "/copy").isOk = true := by decide +kernel
  have harrives : Arrives keeping.top [] ["src"] ["src", "gen.rs"] := by decide +kernel
  refine ⟨hdistinct, hsrc, htargets, ?_⟩
  cases hcopy : Staged.copy keeping [] "/copy" with
  | error e =>
    rw [hcopy] at hok
    cases hok
  | ok s =>
    obtain ⟨-, hstaged⟩ := resolved_staged hdistinct hsrc htargets
    exact ⟨s, rfl, ((hstaged s hcopy).1 _ (List.mem_singleton_self _)).2 harrives⟩

/-- The project outside a repository whose rule for version control leaves out a source file. -/
def losing : Disk := ⟨"/project", .dir "" [.file ".gitignore" (File.ofText "gen.rs\n"),
  .dir "src" [.file "gen.rs" (File.ofText "fn f() {}")]]⟩

/-- The rule counts for the copy although there is no repository, and not for the search: the file is announced and missing. -/
theorem resolved_missing : losing.top.isDistinct = true ∧
    (Walk.rulesAbove losing.top ["src", "gen.rs"]).any (·.repository) = false ∧
    CommandLine.sourceDir losing [] = .ok ["src"] ∧
    resolveTargets losing ["src"] [.byName "f"] = .ok [⟨["src", "gen.rs"], ["f"], []⟩] ∧
    ∃ s, Staged.copy losing [] "/copy" = .ok s ∧ s.disk.top.at? (s.names ["src", "gen.rs"]) = .error .missing ∧
      CommandLine.probeAll [] none [⟨["src", "gen.rs"], ["f"], []⟩] s false =
        .error (.error (.unreadable "src/gen.rs" "No such file or directory (os error 2)")) := by
  have hdistinct : losing.top.isDistinct = true := by decide +kernel
  have hsrc : CommandLine.sourceDir losing [] = .ok ["src"] := ok_of_toOption (by decide +kernel)
  have htargets : resolveTargets losing ["src"] [.byName "f"] = .ok [⟨["src", "gen.rs"], ["f"], []⟩] :=
    ok_of_toOption (by decide +kernel)
  have hok : (Staged.copy losing [] "/copy").isOk = true := by decide +kernel
  have hlost : ¬Arrives losing.top [] ["src"] ["src", "gen.rs"] := by decide +kernel
  refine ⟨hdistinct, by decide +kernel, hsrc, htargets, ?_⟩
  cases hcopy : Staged.copy losing [] "/copy" with
  | error e =>
    rw [hcopy] at hok
    cases hok
  | ok s =>
    obtain ⟨f, text, -, -, -, -, hmissing⟩ := target_in_copy hdistinct hsrc htargets (List.mem_singleton_self _) hcopy
    refine ⟨s, rfl, hmissing hlost, ?_⟩
    unfold CommandLine.probeAll
    rw [probeStaged_missing (hmissing hlost)]
    rfl

end CallProbe.Project
