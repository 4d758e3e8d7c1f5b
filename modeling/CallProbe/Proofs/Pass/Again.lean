import CallProbe.Proofs.Grouping.Settled
import CallProbe.Proofs.Pass.Imports
import CallProbe.Proofs.Pass.Reshaped
import CallProbe.Proofs.Snippet.Characters

/-! # A second pass

A text that a pass has written is read back as the tree that was printed. No function in it has a marker any more, so a
second pass that selects nothing asks for nothing and prints the same tree again. -/

namespace CallProbe.Probe

open Source Call Parse

variable {imports : Imports}

/-! ### A pass that asks for nothing -/

variable {r : Request} {x : Reached}

theorem asksOf_unmarked (h : Unmarked r.imports x.function.attrs) :
    r.asksOf x = if r.targets.contains x.name then (r.plan.map Ask.selected).toList else [] := by
  have hmarkers : r.markers x.function.attrs = [] :=
    List.filterMap_eq_nil_iff.mpr fun a ha => by rw [h a ha, Option.map_none]
  unfold Request.asksOf Request.asks
  rw [hmarkers]

theorem asksOf_eq_nil (hplan : r.plan = none) (h : Unmarked r.imports x.function.attrs) : r.asksOf x = [] := by
  rw [asksOf_unmarked h, hplan]
  exact ite_self []

theorem probes_left (h : r.asksOf x = []) : r.probes x = .ok [] := by
  unfold Request.probes
  rw [show r.asks x.name x.function = [] from h, Ask.applyAll]

theorem change?_left (h : r.asksOf x = []) : r.change? x = none := by
  unfold Request.change?
  rw [probes_left h]

theorem skippedAt_left {place : ClosedPlace} (h : r.asksOf x = []) : r.skippedAt place x = [] := by
  unfold Request.skippedAt
  rw [change?_left h]
  rfl

theorem editMethod_left {scope : String} {ofTrait : Bool} {t : Tree} (h : ∀ x ∈ reachedMethod scope t, r.asksOf x = []) :
    r.editMethod scope ofTrait t = [t] := by
  unfold Request.editMethod
  split
  · dsimp only
    rw [change?_left (h _ (by rw [reachedMethod]; exact List.mem_singleton_self _))]
  · rfl

theorem editTraitFn_left {scope : String} {t : Tree} (h : ∀ x ∈ reachedTraitFn scope t, r.asksOf x = []) :
    r.editTraitFn scope t = t := by
  unfold Request.editTraitFn
  split
  · dsimp only
    rw [change?_left (h _ (by rw [reachedTraitFn]; exact List.mem_singleton_self _))]
  · rfl

mutual

/-- Items whose functions are asked for nothing stay as they are. -/
theorem edit_left (t : Tree) (h : ∀ x ∈ reached t, r.asksOf x = []) : r.edit t = [t] := by
  unfold Request.edit
  split
  · dsimp only
    rw [change?_left (h _ (by rw [reached]; exact List.mem_singleton_self _))]
  · simp only [reached] at h
    rw [editAll_left _ h]
  · rename_i attrs dflt u i gs of self w d o inner members c
    simp only [reached] at h
    have hmembers : members.flatMap (r.editMethod (typeName self) of.isPresent) = members.flatMap ([·]) :=
      List.flatMap_congr fun m hm => editMethod_left fun x hx => h x (List.mem_flatMap.mpr ⟨m, hm, hx⟩)
    rw [hmembers, List.flatMap_singleton']
  · rename_i attrs vis u a t n gs colon bs w d o inner members c
    simp only [reached] at h
    have hmembers : members.map (r.editTraitFn n.text) = members :=
      (List.map_congr_left fun m hm => editTraitFn_left fun x hx => h x (List.mem_flatMap.mpr ⟨m, hm, hx⟩)).trans
        (List.map_id members)
    rw [hmembers]
  · rfl

theorem editAll_left (ts : List Tree) (h : ∀ x ∈ reachedAll ts, r.asksOf x = []) : r.editAll ts = ts := by
  match ts with
  | [] => rw [Request.editAll]
  | t :: ts =>
    rw [reachedAll] at h
    obtain ⟨hhere, hrest⟩ := List.forall_mem_append.mp h
    rw [Request.editAll, edit_left t hhere, editAll_left ts hrest, List.singleton_append]

end

theorem editFile_left {file : Tree} (h : ∀ x ∈ reachedIn file, r.asksOf x = []) : r.editFile file = file := by
  unfold Request.editFile
  split
  · rw [editAll_left _ h]
  · rfl

mutual

theorem skips_left (t : Tree) (h : ∀ x ∈ reached t, r.asksOf x = []) : r.skips t = [] := by
  unfold Request.skips
  split
  · simp only [reached] at h
    exact skipsAll_left _ h
  · simp only [reached] at h
    refine List.flatMap_eq_nil_iff.mpr fun m hm => ?_
    unfold Request.skipsMethod
    split
    · exact List.flatMap_eq_nil_iff.mpr fun x hx => skippedAt_left (h x (List.mem_flatMap.mpr ⟨m, hm, hx⟩))
    · rfl
  · simp only [reached] at h
    exact List.flatMap_eq_nil_iff.mpr fun m hm => List.flatMap_eq_nil_iff.mpr fun x hx =>
      skippedAt_left (h x (List.mem_flatMap.mpr ⟨m, hm, hx⟩))
  · rfl

theorem skipsAll_left (ts : List Tree) (h : ∀ x ∈ reachedAll ts, r.asksOf x = []) : r.skipsAll ts = [] := by
  match ts with
  | [] => rw [Request.skipsAll]
  | t :: ts =>
    rw [reachedAll] at h
    obtain ⟨hhere, hrest⟩ := List.forall_mem_append.mp h
    rw [Request.skipsAll, skips_left t hhere, skipsAll_left ts hrest, List.append_nil]

end

theorem skipsIn_left {file : Tree} (h : ∀ x ∈ reachedIn file, r.asksOf x = []) : r.skipsIn file = [] := by
  unfold Request.skipsIn
  split
  · exact skipsAll_left _ h
  · rfl

/-- A pass over a file without markers that has no plan only prints the file. -/
theorem instrument_left {path source : String} {file : Tree} (h : fileOfText path source = .ok file)
    (hunmarked : AllUnmarked (.ofFile file) (reachedIn file)) (targets : List String) :
    instrument path source targets none =
      (textOfFile file).map fun text => { source := text, probed := [], skipped := [] } := by
  have hasks : ∀ x ∈ reachedIn file, (requestFor file targets none).asksOf x = [] := fun x hx => asksOf_eq_nil rfl (hunmarked x hx)
  have hprobes : (reachedIn file).mapM (requestFor file targets none).probes = .ok ((reachedIn file).map fun _ => []) :=
    mapM_eq_ok.mpr (forall₂_map fun x hx => probes_left (hasks x hx))
  have hnone : ((reachedIn file).map fun _ => ([] : List Probed)).flatten = [] := by simp
  rw [instrument_eq h, instrumentTree_performs, hprobes, Except.map, Except.bind, hnone, editFile_left hasks, skipsIn_left hasks]
  refine congrArg (Except.map · (textOfFile file)) (funext fun text => ?_)
  dsimp only
  rw [header, List.isEmpty_nil, if_pos rfl, String.empty_append]

/-! ### Texts that are read back -/

theorem tree_file (attrs : Tree) (items : List Tree) : Grouping.tree .most {} (.node .file [attrs, .node .items items]) =
    .node .file [Grouping.tree .most {} attrs, .node .items (items.map (Grouping.tree .most {}))] := by
  have hitems : Grouping.tree .most {} (.node .items items) = .node .items (items.map (Grouping.tree .most {})) :=
    Grouping.tree_node (by simp [Grouping.partCount?])
  rw [Grouping.tree_node (by simp [Grouping.partCount?]), List.map_cons, List.map_singleton, hitems]

/-- A file is printed as the tree that is printed of it. -/
theorem textOfFile_tree (attrs : Tree) (items : List Tree) :
    textOfFile (Grouping.tree .most {} (.node .file [attrs, .node .items items])) =
      textOfFile (.node .file [attrs, .node .items items]) := by
  have hsettled : Grouping.tree .most {} ∘ Grouping.tree .most {} = Grouping.tree .most {} :=
    funext (Grouping.tree_tree .most {})
  rw [tree_file]
  unfold textOfFile Layout.textOfFile Layout.textOfItems Layout.itemsLayout
  dsimp only
  rw [Grouping.tree_tree, Grouping.trees_eq, Grouping.trees_eq, List.map_map, hsettled]

theorem textOfFile_edited {file file' : Tree} (h : FileEdited r file file') :
    textOfFile (Grouping.tree .most {} file') = textOfFile file' := by
  cases h with
  | file => exact textOfFile_tree _ _

/-- The text is read back as the tree that was printed: the same tree up to places and separators at the ends of lists, on
    which no text depends. -/
def ReadsBack (path text : String) (file : Tree) : Prop :=
  ∃ again, fileOfText path text = .ok again ∧ again.alike (Grouping.tree .most {} file) = true ∧
    textOfFile again = textOfFile (Grouping.tree .most {} file)

theorem imports_of_alike {again file : Tree} (h : again.alike (Grouping.tree .most {} file) = true) :
    Imports.ofFile again = Imports.ofFile file := by
  have hpasses := importing.passes_of_alike h
  rw [importing.passes_tree, passes_importing, passes_importing] at hpasses
  exact congrArg Imports.mk (Bool.not_inj hpasses)

theorem allUnmarked_of_alike {again file : Tree} (h : again.alike (Grouping.tree .most {} file) = true)
    (hunmarked : AllUnmarked imports (reachedIn file)) : AllUnmarked imports (reachedIn again) := by
  rw [allUnmarked_iff] at hunmarked ⊢
  have hagain : fileUnmarked imports again = fileUnmarked imports file := by
    rw [← fileUnmarked_regular regular_trimmed, ← fileUnmarked_regular regular_unplaced, Tree.unplaced_of_same h,
      fileUnmarked_regular regular_unplaced, fileUnmarked_regular regular_trimmed, fileUnmarked_regular (regular_tree .most)]
  exact hagain.trans hunmarked

theorem file_of_instrument {path source : String} {targets : List String} {plan : Option Plan} {result : Instrumented}
    (h : instrument path source targets plan = .ok result) : ∃ file, fileOfText path source = .ok file := by
  unfold instrument at h
  cases hfile : fileOfText path source with
  | error e =>
    rw [hfile] at h
    cases h
  | ok file => exact ⟨file, rfl⟩

/-! ### The second pass -/

/-- A pass that succeeds leaves no marker, by the imports that it went by, on any function that a pass reaches. If no code
    that its plans put in brings in `profile`, the imports of the file are what they were; then a second pass without a plan
    over the text, if that is read back as it was printed, probes nothing and gives the text again, without the line at its
    top. -/
theorem instrument_again {path source : String} {targets : List String} {plan : Option Plan} {result : Instrumented}
    (h : instrument path source targets plan = .ok result) :
    ∃ file file' progress text, fileOfText path source = .ok file ∧ instrumentTree targets plan file = .ok (file', progress) ∧
      textOfFile file' = .ok text ∧ result.source = header progress.probed ++ text ∧
      AllUnmarked (.ofFile file) (reachedIn file') ∧
      ((∀ x ∈ reachedIn file, ∀ a ∈ (requestFor file targets plan).asksOf x, ∀ p, a.planned = .ok p → ∀ code, p.Inserts code →
          bringsInProfile code = false) →
        Imports.ofFile file' = Imports.ofFile file ∧ (ReadsBack path result.source file' → ∀ others,
          instrument path result.source others none = .ok { source := text, probed := [], skipped := [] })) := by
  obtain ⟨file, hfile⟩ := file_of_instrument h
  obtain ⟨ts, -, hparse⟩ := fileOfText_ok hfile
  have hpass := instrumentTree_performs targets plan file
  rw [instrument_eq hfile] at h
  cases hall : (reachedIn file).mapM (requestFor file targets plan).probes with
  | error e =>
    rw [hpass, hall] at h
    cases h
  | ok dones =>
    have hprobes : ∀ x ∈ reachedIn file, Probes (requestFor file targets plan) x := mapM_defined hall
    have hedited := editFile_edits hparse hprobes
    have hunmarked := allUnmarked_editFile hparse hprobes
    rw [hall, Except.map] at hpass
    cases htext : textOfFile ((requestFor file targets plan).editFile file) with
    | error e =>
      rw [hpass, Except.bind, htext] at h
      cases h
    | ok text =>
      rw [hpass, Except.bind, htext] at h
      obtain rfl := Except.ok.inj h
      refine ⟨file, _, _, text, hfile, hpass, htext, rfl, hunmarked, fun hplans => ?_⟩
      have himports := imports_editFile hparse hprobes hplans
      refine ⟨himports, fun ⟨again, hagain, halike, hprints⟩ others => ?_⟩
      -- Neither imports nor markers depend on what may differ in the file that is read back.
      have hclean : AllUnmarked (.ofFile again) (reachedIn again) := by
        rw [imports_of_alike halike, himports]
        exact allUnmarked_of_alike halike hunmarked
      rw [instrument_left hagain hclean, hprints, textOfFile_edited hedited, htext]
      rfl

/-! ### Two files -/

/-- The file of the characters of a text. -/
def fileOfChars (cs : List Char) : Option Tree :=
  let (pos, rest) : Pos × List Char := match cs with
    | c :: cs => if c.toNat = 0xFEFF then (⟨1, 1⟩, cs) else (⟨1, 0⟩, c :: cs)
    | [] => (⟨1, 0⟩, [])
  (Lexer.readFrom (rest.length + 1) [] [] pos rest).bind fun ts => (Grammar.parseFile ts).toOption

theorem fileOfText_of_chars {cs : List Char} {file : Tree} (h : fileOfChars cs = some file) (path : String) :
    fileOfText path (String.ofList cs) = .ok file := by
  obtain ⟨ts, hts, hfile⟩ := Option.bind_eq_some_iff.mp h
  have htokens : tokenize (String.ofList cs) = some ts := by
    rw [tokenize, String.toList_ofList]
    exact hts
  rw [fileOfText, htokens, Option.map_some, ok_of_toOption hfile]

/-- The text of a file is that of its characters. -/
theorem textOfFile_of_isOk {file : Tree} (h : (Layout.textOfFile file).isOk = true) :
    textOfFile file = .ok (String.ofList (Layout.fileChars file)) := by
  obtain ⟨text, htext⟩ := isOk_iff.mp h
  rw [textOfFile, htext, Layout.textOfFile_chars htext]
  rfl

/-- Whether the characters of a file, behind those of a line, are read back as the file. -/
def readsBack (line : List Char) (file : Tree) : Bool :=
  (fileOfChars (line ++ Layout.fileChars file)).any fun again => again.alike (Grouping.tree .most {} file) &&
    (Layout.textOfFile again).isOk && (Layout.textOfFile (Grouping.tree .most {} file)).isOk &&
    Layout.fileChars again == Layout.fileChars (Grouping.tree .most {} file)

theorem readsBack_of_chars {line : String} {file : Tree} (h : readsBack line.toList file = true) (path : String) :
    ReadsBack path (line ++ String.ofList (Layout.fileChars file)) file := by
  obtain ⟨again, hagain, htest⟩ := (Option.any_eq_true ..).mp h
  simp only [Bool.and_eq_true, beq_iff_eq] at htest
  obtain ⟨⟨⟨halike, hagainOk⟩, hgroupedOk⟩, hchars⟩ := htest
  have hread := fileOfText_of_chars hagain path
  rw [String.ofList_append, String.ofList_toList] at hread
  refine ⟨again, hread, halike, ?_⟩
  rw [textOfFile_of_isOk hagainOk, textOfFile_of_isOk hgroupedOk, hchars]

/-- Whether a plan calls paths only that can be called as they are written, and none of them brings in `profile`. -/
def Plan.isHarmless (plan : Plan) : Bool := plan.callees.all fun path => isCallee path && !bringsInProfile path

theorem bringsInProfile_of_isHarmless {plan : Plan} (h : plan.isHarmless = true) :
    ∀ code, plan.Inserts code → bringsInProfile code = false := by
  intro code hcode
  have hpasses : plan.Passes importing := passes_callees rfl fun path hpath => by
    have htest := List.all_eq_true.mp h path hpath
    rw [Bool.and_eq_true] at htest
    rwa [passes_importing]
  have hnone := hpasses code hcode
  rw [passes_importing] at hnone
  simpa using hnone

/-- A function that was marked, and whose call was wrapped, is left alone by the second pass. -/
theorem instrument_again_marked : ∃ result text,
    instrument "lib.rs" "#[shallow_runtime::wrap_calls(wrapper = w)]\nfn f() \x7b g(1) \x7d\n" [] none = .ok result ∧
    result.probed.map (·.callsWrapped) = [1] ∧
    result.source = "// @generated by shallow: call sites rewritten in f\n" ++ text ∧
    instrument "lib.rs" result.source ["f"] none = .ok { source := text, probed := [], skipped := [] } := by
  obtain ⟨file, hfile, htest⟩ := @ok_of_any _ _
    (fileOfText "lib.rs" "#[shallow_runtime::wrap_calls(wrapper = w)]\nfn f() \x7b g(1) \x7d\n") (fun file =>
      (reachedIn file).all (fun x => ((requestFor file [] none).asksOf x).all fun a => a.planned.toOption.all Plan.isHarmless) &&
        (instrumentTree [] none file).toOption.any fun r => r.2.probed.map (·.callsWrapped) == [1] &&
          header r.2.probed == "// @generated by shallow: call sites rewritten in f\n" &&
          (Layout.textOfFile r.1).isOk && readsBack "// @generated by shallow: call sites rewritten in f\n".toList r.1)
    (by decide +kernel)
  obtain ⟨hharmless, hpasses⟩ := Bool.and_eq_true_iff.mp htest
  obtain ⟨⟨edited, progress⟩, hpass, htest⟩ := ok_of_any hpasses
  simp only [Bool.and_eq_true, beq_iff_eq] at htest
  obtain ⟨⟨⟨hone, hheader⟩, hok⟩, hread⟩ := htest
  have htext := textOfFile_of_isOk hok
  obtain ⟨result, hresult, hprobed⟩ : ∃ result, instrument "lib.rs"
      "#[shallow_runtime::wrap_calls(wrapper = w)]\nfn f() \x7b g(1) \x7d\n" [] none = .ok result ∧
      result.probed = progress.probed := ⟨_, by rw [instrument_eq hfile, hpass, Except.bind, htext]; rfl, rfl⟩
  obtain ⟨file', edited', progress', text, hfile', hpass', htext', hsource, -, hagain⟩ := instrument_again hresult
  obtain rfl : file = file' := Except.ok.inj (hfile.symm.trans hfile')
  obtain ⟨rfl, rfl⟩ : edited = edited' ∧ progress = progress' := Prod.mk.inj (Except.ok.inj (hpass.symm.trans hpass'))
  obtain rfl := Except.ok.inj (htext.symm.trans htext')
  rw [hheader] at hsource
  -- The only plan is that of the marker, whose wrapper brings in nothing.
  obtain ⟨-, hstable⟩ := hagain fun x hx a ha plan hplan => bringsInProfile_of_isHarmless (by
    have htest := List.all_eq_true.mp (List.all_eq_true.mp hharmless x hx) a ha
    rwa [hplan] at htest)
  have hback : ReadsBack "lib.rs" result.source edited := hsource ▸ readsBack_of_chars hread "lib.rs"
  exact ⟨result, _, hresult, hprobed ▸ hone, hsource, hstable hback ["f"]⟩

/-- A path whose argument is a block that brings in `profile`. -/
def importingPath : Option Tree :=
  (tokenize "note::<\x7b use shallow_runtime::profile; 1 \x7d>").bind fun ts => (Grammar.parsePath ts).toOption

/-- The plan to profile with a limit of one second and tell the path about shorter invocations. -/
def importingPlan : Plan := .profile { ProfileOptions.ofLimit ⟨1000000000⟩ with below := importingPath }

/-- The callback of a profile brings in `profile`, and an attribute that was none before is a marker afterwards, which the
    second pass fails on. -/
theorem instrument_again_importing : ∃ file file' progress,
    fileOfText "lib.rs" "fn f() {}\n#[profile]\nfn h() {}\n" = .ok file ∧
    instrumentTree ["f"] (some importingPlan) file = .ok (file', progress) ∧ (textOfFile file').isOk = true ∧
    Imports.ofFile file' ≠ Imports.ofFile file ∧ ¬AllUnmarked (.ofFile file') (reachedIn file') ∧
    (instrumentTree [] none file').isOk = false := by
  obtain ⟨file, hfile, htest⟩ := @ok_of_any _ _ (fileOfText "lib.rs" "fn f() {}\n#[profile]\nfn h() {}\n") (fun file =>
    (instrumentTree ["f"] (some importingPlan) file).toOption.any fun r => (textOfFile r.1).isOk &&
      Imports.ofFile r.1 != Imports.ofFile file && !fileUnmarked (.ofFile r.1) r.1 && !(instrumentTree [] none r.1).isOk)
    (by decide +kernel)
  cases hpass : instrumentTree ["f"] (some importingPlan) file with
  | error e =>
    rw [hpass] at htest
    cases htest
  | ok r =>
    simp only [hpass, Except.toOption, Option.any_some, Bool.and_eq_true, bne_iff_ne, Bool.not_eq_true'] at htest
    obtain ⟨⟨⟨hprints, himports⟩, hmarked⟩, hfails⟩ := htest
    refine ⟨file, r.1, r.2, hfile, hpass, hprints, himports, fun hunmarked => ?_, hfails⟩
    rw [fileUnmarked, allUnmarked_iff.mp hunmarked] at hmarked
    cases hmarked

end CallProbe.Probe
