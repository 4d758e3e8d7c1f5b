import CallProbe.CommandLine.Build
import CallProbe.Proofs.Project.Runtime
import CallProbe.Proofs.Project.Staged

/-! # The tree of the user

What a build leaves of the tree that it starts from. Main statement: every file stays as it is, apart from the one that the copied
manifest names as the start of the binary, if that file is not in the copy (`buildProject_writes`). -/

namespace CallProbe

/-! ### Results -/

variable {ε δ α β : Type}

theorem bind_eq_ok {x : Except ε α} {f : α → Except ε β} {b : β} : x >>= f = .ok b ↔ ∃ a, x = .ok a ∧ f a = .ok b := by
  cases x with
  | error e => exact ⟨fun h => (by cases h), fun ⟨a, h, _⟩ => (by cases h)⟩
  | ok a => exact ⟨fun h => ⟨a, rfl, h⟩, fun ⟨a', h, hb⟩ => by cases h; exact hb⟩

theorem mapError_eq_ok {x : Except ε α} {g : ε → δ} {a : α} : x.mapError g = .ok a ↔ x = .ok a := by
  cases x with
  | error e => exact ⟨fun h => (by cases h), fun h => (by cases h)⟩
  | ok b => exact ⟨fun h => congrArg Except.ok (Except.ok.inj h), fun h => congrArg Except.ok (Except.ok.inj h)⟩

end CallProbe

namespace CallProbe.Files

open Entry

variable {m : Host} {d : Disk} {place names : List String} {c : Component}

/-! ### Paths that stay in a copy -/

theorem Disk.below?_append (d : Disk) (names : List String) : d.below? (d.mount ++ names) = some names := by
  unfold below?
  rw [if_pos (List.isPrefixOf_iff_prefix.2 (List.prefix_append _ _)), List.drop_left]

namespace Host

theorem inCopy?_append (hcopy : m.copy = some d) (names : List String) : m.inCopy? (d.mount ++ names) = some names := by
  unfold inCopy?
  rw [hcopy]
  exact d.below?_append names

theorem spot?_append (hcopy : m.copy = some d) (names : List String) : m.spot? (d.mount ++ names) = some (.copy names) := by
  unfold spot?
  rw [inCopy?_append hcopy]

/-- A path of names never leaves the copy it is taken from. -/
theorem follow_inside (hcopy : m.copy = some d) : ∀ (cs : List Component) (names : List String), (∀ c ∈ cs, c ≠ .root ∧ c ≠ .up) →
    ∀ place, m.follow (d.mount ++ names) cs = .ok place → ∃ more, place = d.mount ++ names ++ more
  | [], names, _, place, h => ⟨[], by rw [List.append_nil]; exact (Except.ok.inj h).symm⟩
  | .root :: _, _, hall, _, _ => absurd rfl (hall _ List.mem_cons_self).1
  | .up :: _, _, hall, _, _ => absurd rfl (hall _ List.mem_cons_self).2
  | .here :: rest, names, hall, place, h => follow_inside hcopy rest names (fun c hc => hall c (List.mem_cons_of_mem _ hc)) place h
  | .name n :: rest, names, hall, place, h => by
    simp only [follow] at h
    cases hdir : m.enter (d.mount ++ names) with
    | error err =>
      rw [hdir] at h
      cases h
    | ok u =>
      have hresolve : m.resolve (d.mount ++ names ++ [n]) = d.mount ++ (names ++ [n]) := by
        unfold resolve
        rw [List.append_assoc, inCopy?_append hcopy]
        simp
      rw [hdir] at h
      have h : m.follow (d.mount ++ (names ++ [n])) rest = .ok place := hresolve ▸ h
      obtain ⟨more, rfl⟩ := follow_inside hcopy rest _ (fun c hc => hall c (List.mem_cons_of_mem _ hc)) place h
      exact ⟨n :: more, by simp⟩

theorem locate_inv {start : List String} {path : String} {s : Spot} (h : m.locate start path = .ok s) :
    ∃ place, m.follow start (Path.components path) = .ok place ∧ m.spot? place = some s := by
  unfold locate at h
  simp only [bind, Except.bind] at h
  split at h
  · cases h
  · split at h
    · cases h
    · rename_i place hplace
      refine ⟨place, hplace, ?_⟩
      split at h
      · cases h
      · rename_i s' hs'
        split at h
        · cases h
        · cases h
          exact hs'

/-- Where a path can only lead out of the copy: from the root, or upwards. -/
theorem leaves_copy (hcopy : m.copy = some d) {path : String} (h : m.locate (d.mount ++ names) path = .ok (.own place)) :
    .root ∈ Path.components path ∨ .up ∈ Path.components path := by
  by_contra hstays
  rw [not_or] at hstays
  obtain ⟨there, hfollow, hspot⟩ := locate_inv h
  obtain ⟨more, rfl⟩ := follow_inside hcopy _ names
    (fun c hc => ⟨fun heq => hstays.1 (heq ▸ hc), fun heq => hstays.2 (heq ▸ hc)⟩) there hfollow
  rw [List.append_assoc, spot?_append hcopy] at hspot
  cases hspot

end Host

/-! ### Files that are written -/

theorem Entry.file?_writeText {e e' : Entry} {f : File} {s : String} (h : e.writeText names s = .ok e') (hf : e.file? names = .ok f) :
    ∃ g, f.write s = .ok g ∧ ∀ q k, e'.file? q = .ok k ↔ if q = names then k = g else e.file? q = .ok k := by
  cases names with
  | nil =>
    obtain ⟨n, f', rfl⟩ : ∃ n f', e = file n f' := by
      cases e with
      | file n f' => exact ⟨n, f', rfl⟩
      | dir n es => cases hf
    obtain rfl : f' = f := Except.ok.inj hf
    cases hw : f'.write s with
    | error err =>
      have h : (f'.write s).map (file "") = .ok e' := h
      rw [hw] at h
      cases h
    | ok g =>
      have h : (f'.write s).map (file "") = .ok e' := h
      rw [hw] at h
      cases h
      refine ⟨g, rfl, fun q k => ?_⟩
      rw [← look_eq_file, ← look_eq_file]
      cases q with
      | nil => simp [look_nil, content, eq_comm]
      | cons n' rest => simp [look_file_cons]
  | cons n rest =>
    obtain ⟨g, hg, hfiles⟩ := look_writeText (List.cons_ne_nil n rest) h
    refine ⟨g, hg f (look_eq_file.2 hf), fun q k => ?_⟩
    rw [← look_eq_file, hfiles]
    simp only [look_eq_file]

/-- Making directories keeps every file. -/
theorem Entry.file?_makeDirs {e e' : Entry} {f : File} (hnames : names ≠ []) (h : e.makeDirs names = .ok e') (q : List String) :
    e'.file? q = .ok f ↔ e.file? q = .ok f := by
  rw [← look_eq_file, ← look_eq_file, look_makeDirs hnames h]
  split
  · rename_i habove
    simp [look_of_makeDirs h habove f]
  · rfl


theorem File.write_inv {f g : File} {s : String} (h : f.write s = .ok g) : g = { f with bytes := s.toUTF8 } := by
  unfold File.write at h
  split at h
  · exact (Except.ok.inj h).symm
  · cases h

end CallProbe.Files

namespace CallProbe.Project.Staged

open Files Probe

variable {s s' : Staged} {own own' : Disk} {here names : List String} {path : String} {top top' : Entry} {entry : Option String}

/-! ### Copies that are made ready -/

theorem injectAt_inv (h : injectAt path names top = .ok top') : ∃ f source text, top.file? names = .ok f ∧ f.read = .ok source ∧
    injectSubscriber path source = .ok text ∧ top.writeText names text = .ok top' := by
  obtain ⟨source, hread, h⟩ := bind_eq_ok.1 h
  obtain ⟨text, htext, hwrite⟩ := bind_eq_ok.1 h
  obtain ⟨f, hf, hsource⟩ := bind_eq_ok.1 (mapError_eq_ok.1 hread)
  exact ⟨f, source, text, hf, hsource, htext, mapError_eq_ok.1 hwrite⟩

/-- What setting up a place for reports does to the tree of the user. -/
theorem enableLogging_inv (h : s.enableLogging own here = .ok (s', own', entry)) : s'.disk.base = s.disk.base ∧
    ((own' = own ∧ ∀ path names, s.entry? own here ≠ .ok (some (path, .own names))) ∨
      ∃ path names top, s.entry? own here = .ok (some (path, .own names)) ∧ injectAt path names own.top = .ok top ∧
        own' = { own with top }) := by
  obtain ⟨found, hfound, h⟩ := bind_eq_ok.1 h
  have hentry := mapError_eq_ok.1 hfound
  rcases found with - | ⟨path, names | names⟩
  · cases h
    exact ⟨rfl, .inl ⟨rfl, fun path names heq => by rw [hentry] at heq; cases heq⟩⟩
  · obtain ⟨top, hinject, h⟩ := bind_eq_ok.1 h
    cases h
    exact ⟨rfl, .inr ⟨path, names, top, hentry, hinject, rfl⟩⟩
  · obtain ⟨top, -, h⟩ := bind_eq_ok.1 h
    cases h
    exact ⟨rfl, .inl ⟨rfl, fun path names heq => by rw [hentry] at heq; cases heq⟩⟩

theorem enableLogging_own (hentry : s.entry? own here = .ok (some (path, .own names))) (hinject : injectAt path names own.top = .ok top) :
    s.enableLogging own here = .ok (s, { own with top }, some path) := by
  unfold enableLogging
  rw [hentry]
  show (injectAt path names own.top >>= _) = _
  rw [hinject]
  rfl

/-- A binary starts outside of the copy only if the copied manifest says so. -/
theorem entry?_own (hentry : s.entry? own here = .ok (some (path, .own names))) :
    (∃ doc, readManifest s.disk s.member = .ok doc ∧ declaredEntry doc.toData = path) ∧
      (.root ∈ Path.components path ∨ .up ∈ Path.components path) := by
  obtain ⟨doc, hdoc, h⟩ := bind_eq_ok.1 hentry
  have h := Except.ok.inj h
  split at h
  · rename_i spot hspot
    split at h
    · obtain ⟨rfl, rfl⟩ : declaredEntry doc.toData = path ∧ spot = .own names := by
        simpa only [Option.some.injEq, Prod.mk.injEq] using h
      exact ⟨⟨doc, hdoc, rfl⟩, Host.leaves_copy rfl hspot⟩
    · cases h
  · cases h

theorem write_base {inPackage : List String} {text : String} (h : s.write inPackage text = .ok s') : s'.disk.base = s.disk.base := by
  obtain ⟨top, -, h⟩ := bind_eq_ok.1 h
  cases h
  rfl

theorem addRuntime_base {source : RuntimeSource} {features : List String} (h : s.addRuntime source features = .ok s') :
    s'.disk.base = s.disk.base := by
  obtain ⟨doc, -, h⟩ := bind_eq_ok.1 h
  exact write_base h

theorem copy_base {d : Disk} {project : List String} {place : String} (h : copy d project place = .ok s) : s.disk.base = place := by
  obtain ⟨top, package, -, -, rfl⟩ := copy_eq_ok.1 h
  rfl

end CallProbe.Project.Staged

namespace CallProbe.CommandLine

open Files Probe Project

/-! ### Runs -/

namespace Action

variable {α β : Type} (s : Session)

theorem run_bind (a : Action α) (f : α → Action β) : (a >>= f).run.run s =
    match a.run.run s with
    | (.ok x, s') => (f x).run.run s'
    | (.error e, s') => (.error e, s') := by
  simp only [bind, ExceptT.bind, ExceptT.run, ExceptT.mk, StateT.bind, StateT.run]
  cases h : a s with
  | mk r s' => cases r <;> rfl

theorem run_ofResult (r : Except Failure α) : (ofResult r).run.run s = (r, s) := by
  cases r <;> rfl

theorem run_ofExcept (r : Except Error α) : (Action.ofExcept r).run.run s = (r.mapError Failure.error, s) := run_ofResult s _

theorem run_ofAccess (r : Except AccessError α) : (ofAccess r).run.run s =
    ((r.mapError fun e => Error.io e.text).mapError Failure.error, s) := run_ofExcept s _

theorem run_get : (get : Action Session).run.run s = (.ok s, s) := rfl

theorem run_modify (f : Session → Session) : (modify f : Action Unit).run.run s = (.ok (), f s) := rfl

theorem run_change (edit : Entry → Except AccessError Entry) : (change edit).run.run s = match edit s.disk.top with
    | .ok top => (.ok (), { s with disk := { s.disk with top } })
    | .error e => (.error (.error (.io e.text)), s) := by
  unfold change
  rw [run_bind, run_get]
  simp only [run_bind, run_ofAccess]
  cases edit s.disk.top <;> rfl

theorem ofResult_bind (r : Except Failure α) (f : α → Except Failure β) :
    ofResult (r >>= f) = ofResult r >>= fun x => ofResult (f x) := by
  cases r <;> rfl

/-- Lines for the user change nothing else. -/
theorem run_sayAll (lines : List String) : ∃ text, (lines.forM say).run.run s = (.ok (), { s with stderr := text }) := by
  induction lines generalizing s with
  | nil => exact ⟨s.stderr, rfl⟩
  | cons line rest ih =>
    obtain ⟨text, htext⟩ := ih { s with stderr := s.stderr ++ line ++ "\n" }
    refine ⟨text, ?_⟩
    show ((say line >>= fun _ => rest.forM say).run).run s = _
    rw [run_bind]
    exact htext

variable {γ : Type} {r : Except Failure α} {g : α → Except Failure γ} {f : α → Action β} {k : γ → Action β}

/-- An action ends as a computation does, or goes on from its value. Before that it only writes for the user. -/
def Leads (a : Action β) (s : Session) (r : Except Failure γ) (k : γ → Action β) : Prop :=
  ∃ text, a.run.run s = match r with
    | .ok c => (k c).run.run { s with stderr := text }
    | .error e => (.error e, { s with stderr := text })

variable {s}

theorem Leads.ofResult (h : ∀ x, Leads (f x) s (g x) k) : Leads (Action.ofResult r >>= f) s (r >>= g) k := by
  cases r with
  | error e => exact ⟨s.stderr, by rw [run_bind, run_ofResult]; rfl⟩
  | ok x =>
    obtain ⟨text, htext⟩ := h x
    refine ⟨text, ?_⟩
    rw [run_bind, run_ofResult]
    exact htext

theorem Leads.ok {a : Action β} {c : γ} (h : a.run.run s = (k c).run.run s) : Leads a s (.ok c) k := ⟨s.stderr, h⟩

theorem Leads.get {f : Session → Action β} {r : Except Failure γ} (h : Leads (f s) s r k) :
    Leads (MonadState.get >>= f) s r k := by
  obtain ⟨text, htext⟩ := h
  exact ⟨text, by rw [run_bind, run_get]; exact htext⟩

theorem Leads.say {a : Action β} {r : Except Failure γ} {lines : List String} (h : ∀ text, Leads a { s with stderr := text } r k) :
    Leads (lines.forM Action.say >>= fun _ => a) s r k := by
  obtain ⟨text, htext⟩ := run_sayAll s lines
  obtain ⟨text', htext'⟩ := h text
  refine ⟨text', ?_⟩
  rw [run_bind, htext]
  exact htext'

end Action

/-! ### Builds -/

theorem probeStaged_base {s : Staged} {project : List String} {plan : Option Plan} {t : Target} {r : Staged × Bool}
    (h : probeStaged s project plan t = .ok r) : r.1.disk.base = s.disk.base := by
  obtain ⟨source, -, h⟩ := bind_eq_ok.1 h
  obtain ⟨result, -, h⟩ := bind_eq_ok.1 h
  obtain ⟨s', hwrite, h⟩ := bind_eq_ok.1 h
  cases h
  exact Staged.write_base (mapError_eq_ok.1 hwrite)

theorem probeAll_base {project : List String} {plan : Option Plan} : ∀ (targets : List Target) {s : Staged} {b : Bool} {r : Staged × Bool},
    probeAll project plan targets s b = .ok r → r.1.disk.base = s.disk.base
  | [], _, _, _, h => by
    cases h
    rfl
  | t :: ts, s, b, r, h => by
    obtain ⟨⟨s', p⟩, hstep, h⟩ := bind_eq_ok.1 h
    exact (probeAll_base ts h).trans (probeStaged_base hstep)

/-- What a build has made before it sets up a place for reports: the names of the project, the copy, and whether a function is
    profiled. -/
def readied (outside : Outside) (a : BuildArgs) (s : Session) : Except Failure (List String × Staged × Bool) := do
  let project ← (findProject s a.project).mapError Failure.error
  let plan ← (planFor a.calls a.selections "--fn, --file and --mod need").mapError Failure.error
  let src ← (sourceDir s.disk project).mapError Failure.error
  let targets ← (resolveTargets s.disk src a.selections).mapError Failure.error
  let staged ← (Staged.copy s.disk project outside.staging).mapError Failure.error
  let (staged, profiled) ← probeAll project plan targets staged false
  let source ← ((runtimeSource s a.runtimePath).mapError fun e => Error.io e.text).mapError Failure.error
  let staged ← (staged.addRuntime source (if profiled then ["subscriber"] else [])).mapError Failure.error
  return (project, staged, profiled)

/-- What a build does with a copy that is ready: it sets up a place for reports, and compiles. -/
def compileReadied (outside : Outside) (project : List String) (copy : Staged) (profiled : Bool) : Action String := do
  let s ← get
  let (copy, own, _) ← Action.ofResult (if profiled then copy.enableLogging s.disk s.here else .ok (copy, s.disk, none))
  modify fun s => { s with disk := own }
  Action.change (·.makeDirs (project ++ ["target", "shallow"]))
  let args := compilerArgs copy.package
  modify fun s => { s with compiled := some (args, copy.disk) }
  Action.ofExcept (executableOf (outside.compiler args copy.disk))

theorem buildProject_leads (outside : Outside) (a : BuildArgs) (s : Session) :
    Action.Leads (buildProject outside a) s (readied outside a s) fun (project, copy, profiled) => compileReadied outside project copy profiled := by
  unfold buildProject readied
  open CommandLine.Action in
  refine Leads.get (Leads.get (Leads.ofResult fun project => Leads.ofResult fun plan => Leads.ofResult fun src =>
    Leads.ofResult fun targets => Leads.say fun text => Leads.ofResult fun staged => Leads.ofResult fun (copy, profiled) =>
    Leads.get (Leads.ofResult fun source => Leads.get ?_)))
  unfold prepare
  rw [Action.ofResult_bind, bind_assoc]
  refine Action.Leads.ofResult fun ready => Action.Leads.ok ?_
  cases profiled with
  | false => rfl
  | true =>
    simp only [compileReadied, if_true, Action.run_bind, Action.run_get, Action.run_ofResult]
    cases ready.enableLogging s.disk s.here <;> rfl

theorem readied_base {outside : Outside} {a : BuildArgs} {s : Session} {project : List String} {copy : Staged} {profiled : Bool}
    (h : readied outside a s = .ok (project, copy, profiled)) : copy.disk.base = outside.staging := by
  obtain ⟨found, -, h⟩ := bind_eq_ok.1 h
  obtain ⟨plan, -, h⟩ := bind_eq_ok.1 h
  obtain ⟨src, -, h⟩ := bind_eq_ok.1 h
  obtain ⟨targets, -, h⟩ := bind_eq_ok.1 h
  obtain ⟨staged, hcopy, h⟩ := bind_eq_ok.1 h
  obtain ⟨⟨probed, p⟩, hprobed, h⟩ := bind_eq_ok.1 h
  obtain ⟨source, -, h⟩ := bind_eq_ok.1 h
  obtain ⟨ready, hready, h⟩ := bind_eq_ok.1 h
  cases h
  rw [Staged.addRuntime_base (mapError_eq_ok.1 hready), probeAll_base _ hprobed, Staged.copy_base (mapError_eq_ok.1 hcopy)]

/-- Compiling a copy makes directories for results in the tree of the user, and keeps every file. -/
theorem compileReadied_keeps (outside : Outside) (project : List String) {copy copy' : Staged} {profiled : Bool} (s : Session)
    {own : Disk} {entry : Option String}
    (h : (if profiled then copy.enableLogging s.disk s.here else .ok (copy, s.disk, none)) = .ok (copy', own, entry)) :
    let s' := ((compileReadied outside project copy profiled).run.run s).2
    s'.disk.base = own.base ∧ (∀ q f, s'.disk.top.file? q = .ok f ↔ own.top.file? q = .ok f) ∧
      (s'.compiled = s.compiled ∨ s'.compiled = some (compilerArgs copy'.package, copy'.disk)) := by
  simp only [compileReadied, Action.run_bind, Action.run_get, Action.run_ofResult, Action.run_modify, Action.run_change, h]
  cases hmake : own.top.makeDirs (project ++ ["target", "shallow"]) with
  | error e => exact ⟨rfl, fun q f => Iff.rfl, .inl rfl⟩
  | ok top =>
    have hne : project ++ ["target", "shallow"] ≠ [] := List.append_ne_nil_of_right_ne_nil _ (List.cons_ne_nil _ _)
    simp only [Action.run_ofExcept]
    exact ⟨trivial, fun q f => Entry.file?_makeDirs hne hmake q, .inr trivial⟩

theorem compileReadied_error (outside : Outside) (project : List String) {copy : Staged} {profiled : Bool} (s : Session) {e : Failure}
    (h : (if profiled then copy.enableLogging s.disk s.here else .ok (copy, s.disk, none)) = .error e) :
    (compileReadied outside project copy profiled).run.run s = (.error e, s) := by
  simp only [compileReadied, Action.run_bind, Action.run_get, Action.run_ofResult, h]

/-- The tree of the user when a copy is compiled, and where the copy is. -/
theorem logged_inv {copy copy' : Staged} {profiled : Bool} {own own' : Disk} {here : List String} {entry : Option String}
    (h : (if profiled then copy.enableLogging own here else .ok (copy, own, none)) = .ok (copy', own', entry)) :
    copy'.disk.base = copy.disk.base ∧
      ((own' = own ∧ (profiled = true → ∀ path names, copy.entry? own here ≠ .ok (some (path, .own names)))) ∨
        profiled = true ∧ ∃ path names top, copy.entry? own here = .ok (some (path, .own names)) ∧
          Staged.injectAt path names own.top = .ok top ∧ own' = { own with top }) := by
  cases profiled with
  | false =>
    cases h
    exact ⟨rfl, .inl ⟨rfl, fun h => (by cases h)⟩⟩
  | true =>
    obtain ⟨hbase, ⟨hown, hentry⟩ | hescape⟩ := Staged.enableLogging_inv h
    · exact ⟨hbase, .inl ⟨hown, fun _ => hentry⟩⟩
    · exact ⟨hbase, .inr ⟨rfl, hescape⟩⟩

/-- A build reaches a file outside of its copy: the copied manifest names `path` as the start of the profiled binary, `path` leads to
    `names` in the tree of the user, and a text for that file can be made, which gives the tree `top`. -/
def Escapes (outside : Outside) (a : BuildArgs) (s : Session) (path : String) (names : List String) (top : Entry) : Prop :=
  ∃ project copy, readied outside a s = .ok (project, copy, true) ∧ copy.entry? s.disk s.here = .ok (some (path, .own names)) ∧
    Staged.injectAt path names s.disk.top = .ok top

variable {outside : Outside} {a : BuildArgs} {s : Session}

theorem Escapes.leads {path : String} {names : List String} {top : Entry} (h : Escapes outside a s path names top) :
    .root ∈ Path.components path ∨ .up ∈ Path.components path := by
  obtain ⟨project, copy, -, hentry, -⟩ := h
  exact (Staged.entry?_own hentry).2

/-- What a build leaves when it reaches no file outside of its copy, or one. -/
theorem buildProject_own (outside : Outside) (a : BuildArgs) (s : Session) :
    let s' := ((buildProject outside a).run.run s).2
    ∃ top, (top = s.disk.top ∧ (∀ path names top', ¬Escapes outside a s path names top') ∨ ∃ path names, Escapes outside a s path names top) ∧
      s'.disk.base = s.disk.base ∧ (∀ q f, s'.disk.top.file? q = .ok f ↔ top.file? q = .ok f) ∧
      ∀ args tree, s'.compiled = some (args, tree) → s.compiled = some (args, tree) ∨ tree.base = outside.staging := by
  obtain ⟨text, hrun⟩ := buildProject_leads outside a s
  intro s'
  have hs' : s' = _ := congrArg Prod.snd hrun
  cases hready : readied outside a s with
  | error e =>
    -- Up to here only messages were printed, and all changes are in the copy.
    rw [hready] at hs'
    refine ⟨s.disk.top, .inl ⟨rfl, fun path names top' ⟨project, copy, hok, _⟩ => ?_⟩, ?_⟩
    · rw [hready] at hok
      cases hok
    · rw [hs']
      exact ⟨rfl, fun q f => Iff.rfl, fun args tree h => .inl h⟩
  | ok ready =>
    obtain ⟨project, copy, profiled⟩ := ready
    rw [hready] at hs'
    cases hlogged : (if profiled then copy.enableLogging s.disk s.here else .ok (copy, s.disk, none)) with
    | error e =>
      refine ⟨s.disk.top, .inl ⟨rfl, fun path names top' ⟨project', copy', hok, hentry, hinject⟩ => ?_⟩, ?_⟩
      · obtain ⟨rfl, rfl, rfl⟩ : project = project' ∧ copy = copy' ∧ profiled = true := by
          simpa [hready] using hok
        rw [if_pos rfl, Staged.enableLogging_own hentry hinject] at hlogged
        cases hlogged
      · rw [hs', show _ = _ from congrArg Prod.snd (compileReadied_error outside project { s with stderr := text } hlogged)]
        exact ⟨rfl, fun q f => Iff.rfl, fun args tree h => .inl h⟩
    | ok r =>
      -- Setting up the log is the one step that may write to the tree of the user.
      obtain ⟨copy', own, entry⟩ := r
      obtain ⟨hbase, hfiles, hcompiled⟩ := compileReadied_keeps outside project { s with stderr := text } hlogged
      obtain ⟨hplace, hown⟩ := logged_inv hlogged
      rw [hs']
      refine ⟨own.top, ?_, ?_, hfiles, fun args tree h => ?_⟩
      · rcases hown with ⟨rfl, hinside⟩ | ⟨rfl, path, names, top, hentry, hinject, rfl⟩
        · refine .inl ⟨rfl, fun path names top' ⟨project', copy'', hok, hentry, _⟩ => ?_⟩
          obtain ⟨rfl, rfl, rfl⟩ : project = project' ∧ copy = copy'' ∧ profiled = true := by
            simpa [hready] using hok
          exact hinside rfl path names hentry
        · exact .inr ⟨path, names, project, copy, hready, hentry, hinject⟩
      · rcases hown with ⟨rfl, -⟩ | ⟨-, path, names, top, -, -, rfl⟩ <;> exact hbase
      · rcases hcompiled with hsame | hnew
        · exact .inl (hsame ▸ h)
        · have h := hnew.symm.trans h
          cases h
          exact .inr (hplace.trans (readied_base hready))

theorem Escapes.unique {path path' : String} {names names' : List String} {top top' : Entry} (h : Escapes outside a s path names top)
    (h' : Escapes outside a s path' names' top') : path = path' ∧ names = names' ∧ top = top' := by
  obtain ⟨project, copy, hready, hentry, hinject⟩ := h
  obtain ⟨project', copy', hready', hentry', hinject'⟩ := h'
  obtain ⟨rfl, rfl⟩ : project = project' ∧ copy = copy' := by simpa using hready.symm.trans hready'
  obtain ⟨rfl, rfl⟩ : path = path' ∧ names = names' := by simpa using hentry.symm.trans hentry'
  exact ⟨rfl, rfl, Except.ok.inj (hinject.symm.trans hinject')⟩

/-- However a build ends, what it compiles is the copy, and every file of the user is as it was, with one exception. The file that the
    copied manifest names as the start of a profiled binary is rewritten, if its path leads there: it starts at the root, or goes up. -/
theorem buildProject_writes (outside : Outside) (a : BuildArgs) (s : Session) :
    let s' := ((buildProject outside a).run.run s).2
    s'.disk.base = s.disk.base ∧
    (∀ args tree, s'.compiled = some (args, tree) → s.compiled = some (args, tree) ∨ tree.base = outside.staging) ∧
    ((∀ path names top, ¬Escapes outside a s path names top) →
      ∀ q f, s'.disk.top.file? q = .ok f ↔ s.disk.top.file? q = .ok f) ∧
    ∀ path names top, Escapes outside a s path names top →
      (.root ∈ Path.components path ∨ .up ∈ Path.components path) ∧
      ∃ f source text, s.disk.top.file? names = .ok f ∧ f.read = .ok source ∧ injectSubscriber path source = .ok text ∧
        ∀ q g, s'.disk.top.file? q = .ok g ↔
          if q = names then g = { f with bytes := text.toUTF8 } else s.disk.top.file? q = .ok g := by
  obtain ⟨top, hown, hbase, hfiles, hcompiled⟩ := buildProject_own outside a s
  refine ⟨hbase, hcompiled, fun hinside => ?_, fun path names top' hescapes => ⟨hescapes.leads, ?_⟩⟩
  · rcases hown with ⟨rfl, -⟩ | ⟨path, names, hescapes⟩
    · exact hfiles
    · exact absurd hescapes (hinside path names top)
  · rcases hown with ⟨-, hinside⟩ | ⟨path', names', hescapes'⟩
    · exact absurd hescapes (hinside path names top')
    · -- The file that was reached is the one of the hypothesis, since a build reaches one only.
      obtain ⟨rfl, rfl, rfl⟩ := hescapes.unique hescapes'
      obtain ⟨project, copy, -, -, hinject⟩ := hescapes
      obtain ⟨f, source, text, hf, hsource, htext, hwrite⟩ := Staged.injectAt_inv hinject
      obtain ⟨g, hg, hwritten⟩ := Entry.file?_writeText hwrite hf
      refine ⟨f, source, text, hf, hsource, htext, fun q k => ?_⟩
      rw [hfiles, hwritten, File.write_inv hg]

end CallProbe.CommandLine

/-! ### A build that rewrites a source -/

namespace CallProbe.CommandLine

open Files Probe Project

/-- A project whose manifest names the start of the binary by its path from the root. -/
def rooted : Session where
  disk := ⟨"/p", .dir "" [.file "Cargo.toml" (File.ofText "[package]\nname = \"p\"\n\n[[bin]]\npath = \"/p/src/main.rs\"\n"),
    .dir "src" [.file "main.rs" (File.ofText "fn main() {}")]]⟩

/-- The arguments that profile its main function. -/
def profiling : BuildArgs := { functions := ["main"], calls := { timeLimit := Time.Float64.parse "1" } }

/-- A compiler that builds, and a place for copies. -/
def compiling : Outside where
  staging := "/copy"
  compiler _ _ := ⟨"\x7b\"reason\":\"compiler-artifact\",\"executable\":\"/x/p\"\x7d\n", "", 0⟩
  start _ _ := .error .missing

/-- The manifest of the copy when the binary is looked for. -/
def rootedManifest : String := "[package]\nname = \"p\"\n\n[[bin]]\npath = \"/p/src/main.rs\"\n
[dependencies]\nshallow-runtime = \x7b version = \"0.3.0\", features = [\"subscriber\"] \x7d\n"

/-- Whether the copy of the project gets this manifest, and starts in the project itself then. -/
def startsInProject (copy : Staged) : Bool :=
  (readManifest copy.disk copy.member).toOption.any fun doc =>
    let d := withRuntime doc (.version version) ["subscriber"]
    d.isOrdered && decide (d.orderedText = rootedManifest) &&
    (copy.write [manifestName] rootedManifest).toOption.any fun ready =>
      decide ((ready.entry? rooted.disk rooted.here).toOption = some (some ("/p/src/main.rs", .own ["src", "main.rs"])))

theorem readied_intro {outside : Outside} {a : BuildArgs} {s : Session} {project src : List String} {plan : Option Plan}
    {targets : List Target} {staged probed copy : Staged} {profiled : Bool} {source : RuntimeSource}
    (hproject : findProject s a.project = .ok project)
    (hplan : planFor a.calls a.selections "--fn, --file and --mod need" = .ok plan) (hsrc : sourceDir s.disk project = .ok src)
    (htargets : resolveTargets s.disk src a.selections = .ok targets) (hstaged : Staged.copy s.disk project outside.staging = .ok staged)
    (hprobed : probeAll project plan targets staged false = .ok (probed, profiled))
    (hsource : runtimeSource s a.runtimePath = .ok source)
    (hcopy : probed.addRuntime source (if profiled then ["subscriber"] else []) = .ok copy) :
    readied outside a s = .ok (project, copy, profiled) :=
  bind_eq_ok.2 ⟨project, mapError_eq_ok.2 hproject, bind_eq_ok.2 ⟨plan, mapError_eq_ok.2 hplan, bind_eq_ok.2 ⟨src, mapError_eq_ok.2 hsrc,
    bind_eq_ok.2 ⟨targets, mapError_eq_ok.2 htargets, bind_eq_ok.2 ⟨staged, mapError_eq_ok.2 hstaged, bind_eq_ok.2 ⟨_, hprobed,
      bind_eq_ok.2 ⟨source, mapError_eq_ok.2 (mapError_eq_ok.2 hsource), bind_eq_ok.2 ⟨copy, mapError_eq_ok.2 hcopy, rfl⟩⟩⟩⟩⟩⟩⟩⟩

/-- The copy of the project can be made ready, and its binary starts in the project. -/
theorem rooted_readied : ∃ ready, readied compiling profiling rooted = .ok ([], ready, true) ∧
    ready.entry? rooted.disk rooted.here = .ok (some ("/p/src/main.rs", .own ["src", "main.rs"])) := by
  obtain ⟨plan, hplan, h⟩ := @ok_of_any _ _ (planFor profiling.calls profiling.selections "--fn, --file and --mod need")
    (fun plan => (Staged.copy rooted.disk [] compiling.staging).toOption.any fun copy =>
      (probeAll [] plan [⟨["src", "main.rs"], ["main"], []⟩] copy false).toOption.any fun (probed, profiled) =>
        profiled && startsInProject probed) (by decide +kernel)
  obtain ⟨copy, hcopy, h⟩ := ok_of_any h
  obtain ⟨⟨probed, profiled⟩, hprobed, h⟩ := ok_of_any h
  obtain ⟨rfl, hstarts⟩ : profiled = true ∧ startsInProject probed = true := by simpa using h
  obtain ⟨doc, hdoc, h⟩ := ok_of_any hstarts
  obtain ⟨⟨hsorted, htext⟩, h⟩ := Bool.and_eq_true_iff.1 h |>.imp_left Bool.and_eq_true_iff.1
  obtain ⟨ready, hready, h⟩ := ok_of_any h
  have hwritten : probed.addRuntime (.version version) ["subscriber"] = .ok ready := by
    rw [addRuntime_of_ordered hdoc hsorted, of_decide_eq_true htext]
    exact hready
  have hsrc : sourceDir rooted.disk [] = .ok ["src"] := ok_of_toOption (by decide +kernel)
  have hready := readied_intro (ok_of_toOption (by decide +kernel)) hplan hsrc (ok_of_toOption (by decide +kernel)) hcopy hprobed rfl
    hwritten
  exact ⟨ready, hready, ok_of_toOption (of_decide_eq_true h)⟩

/-- The source of the project sets up a place for reports after the build: not the copy was rewritten, but the file itself. -/
theorem buildProject_rewrites_source :
    rooted.disk.top.readText ["src", "main.rs"] = .ok "fn main() {}" ∧
    ((buildProject compiling profiling).run.run rooted).2.disk.top.readText ["src", "main.rs"] =
      .ok "fn main() \x7b\n    ::shallow_runtime::install_default_subscriber();\n\x7d\n" := by
  obtain ⟨ready, hready, hentry⟩ := rooted_readied
  obtain ⟨top, hinject, htext⟩ := @ok_of_any _ _ (Staged.injectAt "/p/src/main.rs" ["src", "main.rs"] rooted.disk.top)
    (fun top => decide ((top.readText ["src", "main.rs"]).toOption =
      some "fn main() \x7b\n    ::shallow_runtime::install_default_subscriber();\n\x7d\n")) (by decide +kernel)
  have hescapes : Escapes compiling profiling rooted "/p/src/main.rs" ["src", "main.rs"] top := ⟨[], ready, hready, hentry, hinject⟩
  obtain ⟨top', hown, -, hfiles, -⟩ := buildProject_own compiling profiling rooted
  obtain rfl : top' = top := by
    rcases hown with ⟨-, hinside⟩ | ⟨path, names, hescapes'⟩
    · exact absurd hescapes (hinside _ _ _)
    · exact (hescapes'.unique hescapes).2.2
  obtain ⟨f, hf, hread⟩ := bind_eq_ok.1 (ok_of_toOption (of_decide_eq_true htext))
  exact ⟨ok_of_toOption (by decide +kernel), bind_eq_ok.2 ⟨f, (hfiles _ f).2 hf, hread⟩⟩

end CallProbe.CommandLine
