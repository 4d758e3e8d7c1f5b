import CallProbe.Proofs.Project.Dependency
import CallProbe.Proofs.Project.Probed

/-! # The manifest with the runtime

A manifest that depends on the runtime denotes what it denoted before, apart from its dependencies; and among these,
nothing but the runtime changes, unless they stand between braces: then a new table takes the place of them all
(`addRuntime_changes`). -/

namespace CallProbe.Manifest.Document

/-- Whether the sections of a document stand in the order in which they are written. -/
def isOrdered (d : Document) : Bool :=
  decide ((positioned 0 (⟨[], {}, false, d.entries⟩ :: sectionsOf [] false d.entries)).Pairwise fun a b => decide (a.1 ≤ b.1))

/-- The text of the sections of a document in the order in which they stand there. -/
def orderedText (d : Document) : String :=
  sectionsText true ((positioned 0 (⟨[], {}, false, d.entries⟩ :: sectionsOf [] false d.entries)).map (·.2)) ++ d.trailing

theorem text_of_ordered {d : Document} (h : d.isOrdered = true) : d.text = d.orderedText :=
  congrArg (fun all : List (Nat × Section) => sectionsText true (all.map (·.2)) ++ d.trailing)
    (List.mergeSort_of_pairwise (of_decide_eq_true h))

end CallProbe.Manifest.Document

namespace CallProbe.Project

open Files Manifest Probe

/-! ### Entries -/

variable {name key : String} {entries : List Item} {i : Item}

theorem find?_name (h : Item.find? name entries = some i) : i.key.name = name := by
  simpa using List.find?_some h

theorem lookup_entriesData (name : String) (entries : List Item) :
    (Item.entriesData entries).lookup name = (Item.find? name entries).map Item.toData := by
  induction entries with
  | nil => rfl
  | cons i is ih =>
    rw [Item.entriesData, List.lookup_cons, Item.find?, List.find?_cons, Bool.beq_comm]
    cases i.key.name == name with
    | true => rfl
    | false => exact ih

theorem find?_replace (i : Item) (entries : List Item) (name : String) :
    Item.find? name (entries.map fun e => if e.key.name == i.key.name then i else e) =
      (Item.find? name entries).map fun e => if e.key.name == i.key.name then i else e := by
  have hsame : (fun e : Item => e.key.name == name) ∘ (fun e => if e.key.name == i.key.name then i else e) =
      fun e => e.key.name == name := by
    funext e
    by_cases h : e.key.name = i.key.name <;> simp [h]
  rw [Item.find?, List.find?_map, hsame]
  rfl

/-- An entry that is put among others is found under its name, and the others under theirs. -/
theorem find?_put (i : Item) (entries : List Item) (name : String) :
    Item.find? name (Item.put i entries) = if i.key.name = name then some i else Item.find? name entries := by
  unfold Item.put
  split
  · rename_i h
    rw [find?_replace]
    cases hfind : Item.find? name entries with
    | none =>
      have hne : i.key.name ≠ name := by
        rintro rfl
        rw [hfind] at h
        cases h
      rw [if_neg hne]
      rfl
    | some e =>
      rw [Option.map_some, find?_name hfind]
      by_cases hname : i.key.name = name <;> simp [hname, Ne.symm]
  · rename_i h
    have hnone : Item.find? i.key.name entries = none := by simpa using h
    unfold Item.find? at hnone ⊢
    rw [List.find?_append, List.find?_singleton]
    by_cases hname : i.key.name = name
    · rw [← hname, hnone]
      simp
    · simp [hname]

/-! ### Dependencies -/

/-- What a manifest says about a dependency. -/
def dependency? (manifest : Data) (name : String) : Option Data := (manifest.get? "dependencies").bind (·.get? name)

/-- Whether the dependencies of a document, if it has some, stand in a table with headers or under dotted keys. -/
def isSpelledOut (doc : Document) : Bool :=
  match Item.find? "dependencies" doc.entries with
  | none | some (.table _ _ _) => true
  | some _ => false

/-- The dependencies that are kept. -/
def keptDependencies (doc : Document) : List Item := (dependencyTable doc.entries).2.2

variable {doc : Document} {source : RuntimeSource} {features : List String}

theorem get?_toData (doc : Document) (key : String) :
    doc.toData.get? key = (Item.find? key doc.entries).map Item.toData := lookup_entriesData key doc.entries

theorem dependencyTable_name (entries : List Item) : (dependencyTable entries).1.name = "dependencies" := by
  unfold dependencyTable
  split
  · rename_i h
    exact find?_name h
  · rename_i h
    exact find?_name h
  · rfl

theorem kept_of_spelledOut (h : isSpelledOut doc = true) (name : String) :
    (Item.find? name (keptDependencies doc)).map Item.toData = dependency? doc.toData name := by
  unfold isSpelledOut at h
  unfold keptDependencies dependencyTable dependency?
  rw [get?_toData]
  split at h
  · rename_i hnone
    rw [hnone]
    rfl
  · rename_i k head inner htable
    rw [htable]
    exact (lookup_entriesData name inner).symm
  · cases h

theorem kept_of_braces (h : isSpelledOut doc = false) : keptDependencies doc = [] := by
  unfold isSpelledOut at h
  unfold keptDependencies dependencyTable
  split at h
  · cases h
  · cases h
  · rename_i other hother htable
    rw [htable]
    split
    · rename_i heq
      cases heq
      exact absurd rfl (hother _ _ _)
    · rfl
    · rfl

/-- The entry of the runtime in a document that depends on it. -/
def runtimeEntry (doc : Document) (source : RuntimeSource) (features : List String) : Item :=
  let existing := Item.find? runtimeName (keptDependencies doc)
  .value ((existing.map Item.key).getD (Key.new runtimeName)) (runtimeDependency (existing.map Item.toData) source features)

theorem withRuntime_entries (doc : Document) (source : RuntimeSource) (features : List String) :
    (withRuntime doc source features).entries = Item.put (.table (dependencyTable doc.entries).1 (dependencyTable doc.entries).2.1
      (Item.put (runtimeEntry doc source features) (keptDependencies doc))) doc.entries := rfl

theorem runtimeEntry_name : (runtimeEntry doc source features).key.name = runtimeName := by
  unfold runtimeEntry
  cases h : Item.find? runtimeName (keptDependencies doc) with
  | none => rfl
  | some i =>
    change i.key.name = runtimeName
    exact find?_name h

/-- What a document denotes outside its dependencies stays. -/
theorem withRuntime_get? (h : key ≠ "dependencies") :
    (withRuntime doc source features).toData.get? key = doc.toData.get? key := by
  rw [get?_toData, get?_toData, withRuntime_entries, find?_put, if_neg]
  exact fun heq => h (heq.symm.trans (dependencyTable_name doc.entries))

/-- What a document with the runtime says about a dependency: about others than the runtime, what is kept says it. -/
theorem withRuntime_dependency? (name : String) : dependency? (withRuntime doc source features).toData name =
    if runtimeName = name then some (runtimeEntry doc source features).toData
    else (Item.find? name (keptDependencies doc)).map Item.toData := by
  unfold dependency?
  rw [get?_toData, withRuntime_entries, find?_put]
  simp only [Item.key, dependencyTable_name, if_true]
  change (Item.entriesData _).lookup name = _
  rw [lookup_entriesData, find?_put, runtimeEntry_name]
  split <;> rfl

/-- What a document says about the runtime, as far as it is kept. -/
def keptRuntime (doc : Document) : Option Data :=
  if isSpelledOut doc = true then dependency? doc.toData runtimeName else none

theorem withRuntime_runtime : dependency? (withRuntime doc source features).toData runtimeName =
    some (runtimeDependency (keptRuntime doc) source features).data := by
  rw [withRuntime_dependency?, if_pos rfl]
  have hkept : (Item.find? runtimeName (keptDependencies doc)).map Item.toData = keptRuntime doc := by
    unfold keptRuntime
    split
    · rename_i h
      exact kept_of_spelledOut h runtimeName
    · rename_i h
      rw [kept_of_braces (by simpa using h)]
      rfl
  rw [← hkept]
  rfl

/-- What is said about dependencies is kept: about others than the runtime all of it, and about the runtime which features
    are asked for, and whether the default ones are. -/
structure KeepsDependencies (before after : Data) : Prop where
  others : ∀ name, name ≠ runtimeName → dependency? after name = dependency? before name
  defaults : defaultsOf (dependency? after runtimeName) = defaultsOf (dependency? before runtimeName)
  features : featuresOf (dependency? before runtimeName) <+: featuresOf (dependency? after runtimeName)

theorem featuresOf_runtimeDependency (existing : Option Data) (source : RuntimeSource) (features : List String) :
    featuresOf (some (runtimeDependency existing source features).data) = addFeatures (featuresOf existing) features :=
  featuresOf_dependencyValue

theorem keepsDependencies_of_spelledOut (h : isSpelledOut doc = true) :
    KeepsDependencies doc.toData (withRuntime doc source features).toData where
  others name hname := by rw [withRuntime_dependency?, if_neg (Ne.symm hname), kept_of_spelledOut h]
  defaults := by
    rw [withRuntime_runtime, keptRuntime, if_pos h]
    exact defaultsOf_dependencyValue
  features := by
    rw [withRuntime_runtime, keptRuntime, if_pos h, featuresOf_runtimeDependency]
    obtain ⟨added, heq, -⟩ := addFeatures_added (featuresOf (dependency? doc.toData runtimeName)) features
    exact ⟨added, heq.symm⟩

/-- Dependencies between braces are kept only if there is nothing to keep. -/
theorem keepsDependencies_of_braces (h : isSpelledOut doc = false) :
    KeepsDependencies doc.toData (withRuntime doc source features).toData ↔
      (∀ name, name ≠ runtimeName → dependency? doc.toData name = none) ∧
        defaultsOf (dependency? doc.toData runtimeName) = none ∧
        featuresOf (dependency? doc.toData runtimeName) <+: addFeatures [] features := by
  have hruntime : dependency? (withRuntime doc source features).toData runtimeName =
      some (runtimeDependency none source features).data := by
    rw [withRuntime_runtime, keptRuntime, if_neg (by simp [h])]
  have hothers : ∀ name, name ≠ runtimeName → dependency? (withRuntime doc source features).toData name = none := by
    intro name hname
    rw [withRuntime_dependency?, if_neg (Ne.symm hname), kept_of_braces h]
    rfl
  have hdefaults : defaultsOf (some (runtimeDependency none source features).data) = none := defaultsOf_dependencyValue
  constructor
  · intro hkeeps
    refine ⟨fun name hname => (hkeeps.others name hname).symm.trans (hothers name hname), ?_, ?_⟩
    · rw [← hkeeps.defaults, hruntime, hdefaults]
    · have hfeatures := hkeeps.features
      rwa [hruntime, featuresOf_runtimeDependency] at hfeatures
  · rintro ⟨hnone, hdefault, hfeatures⟩
    exact ⟨fun name hname => (hothers name hname).trans (hnone name hname).symm, by rw [hruntime, hdefaults, hdefault],
      by rwa [hruntime, featuresOf_runtimeDependency]⟩

/-! ### The file -/

variable {s s' : Staged}

theorem readManifest_inv {d : Disk} {dir : List String} (h : readManifest d dir = .ok doc) :
    ∃ text, d.top.readText (dir ++ [manifestName]) = .ok text ∧ Document.parse text = some doc := by
  unfold readManifest at h
  dsimp only at h
  cases hread : d.top.readText (dir ++ [manifestName]) with
  | error e =>
    rw [hread] at h
    cases h
  | ok text =>
    simp only [hread, Except.mapError, bind, Except.bind] at h
    split at h
    · rename_i hparse
      cases h
      exact ⟨text, rfl, hparse⟩
    · cases h

theorem look_of_readText {e : Entry} {names : List String} {text : String} (h : e.readText names = .ok text) :
    ∃ f, e.look names = some (some f) ∧ f.read = .ok text := by
  unfold Entry.readText at h
  cases hfile : e.file? names with
  | error err =>
    rw [hfile] at h
    cases h
  | ok f =>
    rw [hfile] at h
    exact ⟨f, Entry.look_eq_file.mpr hfile, h⟩

theorem addRuntime_eq (h : readManifest s.disk s.member = .ok doc) (source : RuntimeSource) (features : List String) :
    s.addRuntime source features = s.write [manifestName] (withRuntime doc source features).text := by
  unfold Staged.addRuntime
  rw [h]
  rfl

theorem addRuntime_of_ordered (h : readManifest s.disk s.member = .ok doc)
    (hordered : (withRuntime doc source features).isOrdered = true) :
    s.addRuntime source features = s.write [manifestName] (withRuntime doc source features).orderedText := by
  rw [addRuntime_eq h, Document.text_of_ordered hordered]

/-- Making a package depend on the runtime writes its manifest anew and changes no other file of the copy. What the manifest
    denoted outside its dependencies stays. The dependencies are kept exactly if they stand in a table with headers or under
    dotted keys, or if there is nothing to keep. The runtime is asked for with the features that are kept and the given ones. -/
theorem addRuntime_changes (h : readManifest s.disk s.member = .ok doc) (source : RuntimeSource) (features : List String) :
    ((∃ reason, s.addRuntime source features = .error (.io reason)) ∨ ∃ s', s.addRuntime source features = .ok s' ∧
      s'.member = s.member ∧
      s'.disk.top.readText (s.names [manifestName]) = .ok (withRuntime doc source features).text ∧
      ∀ names f, names ≠ s.names [manifestName] →
        (s'.disk.top.look names = some (some f) ↔ s.disk.top.look names = some (some f))) ∧
    (∀ key, key ≠ "dependencies" → (withRuntime doc source features).toData.get? key = doc.toData.get? key) ∧
    dependency? (withRuntime doc source features).toData runtimeName =
      some (runtimeDependency (keptRuntime doc) source features).data ∧
    (KeepsDependencies doc.toData (withRuntime doc source features).toData ↔ isSpelledOut doc = true ∨
      (∀ name, name ≠ runtimeName → dependency? doc.toData name = none) ∧
        defaultsOf (dependency? doc.toData runtimeName) = none ∧
        featuresOf (dependency? doc.toData runtimeName) <+: addFeatures [] features) := by
  refine ⟨?_, fun key hkey => withRuntime_get? hkey, withRuntime_runtime, ?_⟩
  · rw [addRuntime_eq h]
    cases hwrite : s.write [manifestName] (withRuntime doc source features).text with
    | error err =>
      obtain ⟨reason, rfl⟩ := write_error hwrite
      exact .inl ⟨reason, rfl⟩
    | ok s' =>
      -- A text that was written is read back, since the file could be read before.
      obtain ⟨hmember, htop⟩ := write_inv hwrite
      obtain ⟨f, hf, hlook⟩ := Entry.look_writeText (by simp [Staged.names]) htop
      obtain ⟨text, hread, -⟩ := readManifest_inv h
      obtain ⟨k, hk, hktext⟩ := look_of_readText hread
      have hwritten : s'.disk.top.look (s.names [manifestName]) = some (some f) := by rw [hlook, if_pos rfl]
      refine .inr ⟨s', rfl, hmember, readText_of_look hwritten (Entry.read_of_write (isReadable_of_read hktext) (hf k hk)),
        fun names g hne => ?_⟩
      rw [hlook, if_neg hne]
  · cases hspelled : isSpelledOut doc with
    | true => simpa using keepsDependencies_of_spelledOut hspelled
    | false => simpa using keepsDependencies_of_braces hspelled

/-- A copy of a package that has a manifest and nothing else. -/
def bare (manifest : String) : Staged := ⟨⟨"/p", .dir "" [.file manifestName (File.ofText manifest)]⟩, [], none⟩

/-- In a table with a header of its own, another dependency stays, and so do the features of the runtime. -/
theorem addRuntime_changes_header : ∃ doc, readManifest (bare
      "[dependencies.log]\nversion = \"0.4\"\n[dependencies.shallow-runtime]\nfeatures = [\"a\"]\n").disk [] = .ok doc ∧
    ((dependency? doc.toData "log").bind (·.get? "version")).bind Data.text? = some "0.4" ∧
    featuresOf (dependency? doc.toData runtimeName) = ["a"] ∧
    KeepsDependencies doc.toData (withRuntime doc (.version "0.3.0") ["b"]).toData := by
  obtain ⟨doc, hdoc, htest⟩ := @ok_of_any _ _ (readManifest (bare
    "[dependencies.log]\nversion = \"0.4\"\n[dependencies.shallow-runtime]\nfeatures = [\"a\"]\n").disk [])
    (fun doc => isSpelledOut doc && featuresOf (dependency? doc.toData runtimeName) == ["a"] &&
      ((dependency? doc.toData "log").bind (·.get? "version")).bind Data.text? == some "0.4") (by decide +kernel)
  simp only [Bool.and_eq_true, beq_iff_eq] at htest
  obtain ⟨⟨hspelled, hfeatures⟩, hlog⟩ := htest
  obtain ⟨-, -, -, hkeeps⟩ := addRuntime_changes (s := bare _) hdoc (.version "0.3.0") ["b"]
  exact ⟨doc, hdoc, hlog, hfeatures, hkeeps.mpr (.inl hspelled)⟩

/-- A manifest with its dependencies between braces. -/
def braced : String := "dependencies = \x7b log = \"0.4\" \x7d\n\n[package]\nname = \"p\"\n"

/-- The dependencies between braces are lost. -/
theorem addRuntime_braces : ∃ s' doc doc', readManifest (bare braced).disk [] = .ok doc ∧
    (dependency? doc.toData "log").bind Data.text? = some "0.4" ∧
    (bare braced).addRuntime (.version "0.3.0") [] = .ok s' ∧ readManifest s'.disk s'.member = .ok doc' ∧
    (dependency? doc'.toData "log").isNone = true := by
  obtain ⟨doc, hdoc, htest⟩ := @ok_of_any _ _ (readManifest (bare braced).disk []) (fun doc =>
    let after := withRuntime doc (.version "0.3.0") []
    (dependency? doc.toData "log").bind Data.text? == some "0.4" && after.isOrdered &&
      ((bare braced).write [manifestName] after.orderedText).toOption.any fun s' =>
        (readManifest s'.disk s'.member).toOption.any fun doc' => (dependency? doc'.toData "log").isNone) (by decide +kernel)
  simp only [Bool.and_eq_true, beq_iff_eq] at htest
  obtain ⟨⟨hlog, hordered⟩, hwrite⟩ := htest
  obtain ⟨s', hs', hread⟩ := ok_of_any hwrite
  obtain ⟨doc', hdoc', hnone⟩ := ok_of_any hread
  exact ⟨s', doc, doc', hdoc, hlog, (addRuntime_of_ordered (s := bare braced) hdoc hordered).trans hs', hdoc', hnone⟩

end CallProbe.Project
