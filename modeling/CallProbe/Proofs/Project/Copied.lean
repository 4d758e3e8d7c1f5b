import CallProbe.Project.Stage
import CallProbe.Proofs.Files.Found

/-! # What a copy holds

Copying goes on as long as every file that is found can be read, and what is copied at any time is part of the tree
(`PartOf`). So a copy holds exactly the files that its walk reaches, each with what it holds in the tree
(`copyTree_files`). -/

namespace CallProbe.Project

open Files Entry

/-- Whether what one tree holds another one holds at the same names. -/
def PartOf (copy tree : Entry) : Prop := ∀ q k, copy.look q = some k → tree.look q = some k

variable {copy next tree top e : Entry} {names root q : List String} {d : String} {es : List Entry} {f g : File}

theorem partOf_empty (hdir : tree.look [] = some none) : PartOf (.dir d []) tree := by
  intro q k h
  rw [look_empty] at h
  split at h
  · rename_i hq
    cases h
    rw [hq]
    exact hdir
  · cases h

/-! ### One step -/

/-- What is there after something was added. -/
theorem look_addCopy (hnames : names ≠ []) (h : addCopy copy names e = .ok next) :
    next.look q = if q = names then some e.content else if q <+: names then some none else copy.look q := by
  cases e with
  | dir n es =>
    rw [look_makeDirs hnames h]
    by_cases hq : q = names
    · simp [hq, content]
    · rw [if_neg hq]
  | file n f =>
    simp only [addCopy] at h
    split at h
    · exact look_putFile hnames h
    · cases h

section Step

variable (hpart : PartOf copy tree) (hlook : tree.look names = some e.content)

include hpart hlook

/-- What is at some names in a part of a tree can be put there, unless it is a file that cannot be read. -/
theorem addCopy_ok (hread : ∀ f, e.content = some f → f.isReadable = true) :
    ∃ next, addCopy copy names e = .ok next := by
  have hway : ∀ p q, names = p ++ q → q ≠ [] → ∀ f, copy.look p ≠ some (some f) := by
    intro p q hp hq f hfile
    have hdir : tree.look p = some none := look_dir_of_append hq (hp ▸ hlook)
    rw [hpart p _ hfile] at hdir
    cases hdir
  have hhere : ∀ x, (copy.at? names).toOption = some x → x.content = e.content := by
    intro x hx
    have hsome : copy.look names = some x.content := by rw [look, hx]; rfl
    exact Option.some.inj ((hpart _ _ hsome).symm.trans hlook)
  cases e with
  | dir n es =>
    cases hx : (copy.at? names).toOption with
    | none => exact editAt_ok hway (by rw [hx])
    | some x =>
      cases x with
      | dir m inner => exact editAt_ok hway (by rw [hx])
      | file m g => cases hhere _ hx
  | file n f =>
    simp only [addCopy, hread f rfl, if_true]
    cases hx : (copy.at? names).toOption with
    | none => exact editAt_ok hway (by rw [hx])
    | some x =>
      cases x with
      | dir m inner => cases hhere _ hx
      | file m g => exact editAt_ok hway (by rw [hx])

theorem addCopy_partOf (hnames : names ≠ []) (h : addCopy copy names e = .ok next) : PartOf next tree := by
  intro q k hk
  rw [look_addCopy hnames h] at hk
  split at hk
  · rename_i hq
    rw [hq, hlook, hk]
  · rename_i hne
    split at hk
    · rename_i hq
      rw [← hk]
      exact (look_above hlook hq).resolve_left hne
    · exact hpart q k hk

/-- The files of a copy are those that were there and the one that was added. -/
theorem addCopy_files (hnames : names ≠ []) (h : addCopy copy names e = .ok next) :
    next.look q = some (some g) ↔ copy.look q = some (some g) ∨ q = names ∧ e.content = some g := by
  rw [look_addCopy hnames h]
  split
  · rename_i hq
    subst hq
    constructor
    · intro hg
      exact .inr ⟨rfl, Option.some.inj hg⟩
    · rintro (hg | ⟨-, hg⟩)
      · exact hlook.symm.trans (hpart _ _ hg)
      · rw [hg]
  · rename_i hne
    split
    · rename_i hq
      have hdir := (look_above hlook hq).resolve_left hne
      constructor
      · intro hg
        cases hg
      · rintro (hg | ⟨heq, -⟩)
        · exact hdir.symm.trans (hpart _ _ hg)
        · exact absurd heq hne
    · simp [hne]

end Step

/-- A file that was added can be read. -/
theorem readable_of_addCopy (h : addCopy copy names e = .ok next) (hf : e.content = some f) : f.isReadable = true := by
  cases e with
  | dir n es => cases hf
  | file n f' =>
    obtain rfl : f' = f := Option.some.inj hf
    simp only [addCopy] at h
    split at h
    · assumption
    · cases h

/-! ### All steps -/

/-- Adds what was found at some names to a copy, the names taken from the `k`th on. -/
def copyAll (k : Nat) (copy : Entry) (found : List (List String × Entry)) : Except AccessError Entry :=
  found.foldlM (fun copy (names, e) => addCopy copy (names.drop k) e) copy

/-- Whether what was found is there in a tree, below its top. -/
def FoundIn (tree : Entry) (k : Nat) (found : List (List String × Entry)) : Prop :=
  ∀ x ∈ found, x.1.drop k ≠ [] ∧ tree.look (x.1.drop k) = some x.2.content

variable {k : Nat} {found : List (List String × Entry)}

/-- A run keeps a copy part of the tree, and the files of the copy are those that were there and those that were found. -/
theorem copyAll_files (hpart : PartOf copy tree) (hfound : FoundIn tree k found) (h : copyAll k copy found = .ok next) :
    PartOf next tree ∧ ∀ q g, next.look q = some (some g) ↔
      copy.look q = some (some g) ∨ ∃ x ∈ found, q = x.1.drop k ∧ x.2.content = some g := by
  induction found generalizing copy with
  | nil =>
    obtain rfl : copy = next := Except.ok.inj h
    exact ⟨hpart, fun q g => by simp⟩
  | cons x xs ih =>
    rw [copyAll, List.foldlM_cons] at h
    obtain ⟨hne, hlook⟩ := hfound x List.mem_cons_self
    cases hstep : addCopy copy (x.1.drop k) x.2 with
    | error err =>
      simp only [hstep] at h
      cases h
    | ok c =>
      simp only [hstep] at h
      obtain ⟨hpart', hfiles⟩ := ih (addCopy_partOf hpart hlook hne hstep) (fun y hy => hfound y (List.mem_cons_of_mem _ hy)) h
      refine ⟨hpart', fun q g => ?_⟩
      rw [hfiles, addCopy_files hpart hlook hne hstep, List.exists_mem_cons_iff, or_assoc]

/-- A run succeeds if and only if every file that was found can be read. -/
theorem copyAll_ok_iff (hpart : PartOf copy tree) (hfound : FoundIn tree k found) :
    (∃ next, copyAll k copy found = .ok next) ↔ ∀ x ∈ found, ∀ f, x.2.content = some f → f.isReadable = true := by
  induction found generalizing copy with
  | nil => simp [copyAll]; exact ⟨copy, rfl⟩
  | cons x xs ih =>
    obtain ⟨hne, hlook⟩ := hfound x List.mem_cons_self
    have hrest : FoundIn tree k xs := fun y hy => hfound y (List.mem_cons_of_mem _ hy)
    constructor
    · rintro ⟨next, h⟩
      rw [copyAll, List.foldlM_cons] at h
      cases hstep : addCopy copy (x.1.drop k) x.2 with
      | error err =>
        simp only [hstep] at h
        cases h
      | ok c =>
        simp only [hstep] at h
        exact List.forall_mem_cons.2 ⟨fun f hf => readable_of_addCopy hstep hf,
          (ih (addCopy_partOf hpart hlook hne hstep) hrest).1 ⟨next, h⟩⟩
    · intro hread
      obtain ⟨hx, hxs⟩ := List.forall_mem_cons.1 hread
      obtain ⟨c, hstep⟩ := addCopy_ok hpart hlook hx
      obtain ⟨next, h⟩ := (ih (addCopy_partOf hpart hlook hne hstep) hrest).2 hxs
      refine ⟨next, ?_⟩
      rw [copyAll, List.foldlM_cons]
      simp only [hstep]
      exact h

/-! ### Copies of directories -/

theorem copyTree_eq (hdir : top.at? root = .ok (.dir d es)) : ∃ found, stagingWalk.run top root = .ok found ∧
    copyTree top root = copyAll root.length (.dir "" []) found := by
  refine ⟨_, by rw [Walk.run, hdir]; rfl, ?_⟩
  rw [copyTree, Walk.run, hdir]
  rfl

section Directory

variable (hdir : top.at? root = .ok (.dir d es)) (hdistinct : top.isDistinct = true)

include hdir hdistinct

theorem foundIn_of_run (h : stagingWalk.run top root = .ok found) : FoundIn (.dir d es) root.length found := by
  intro x hx
  obtain ⟨⟨r, hr⟩, hne, ⟨e, he, hshallow⟩, -⟩ := (Walk.mem_run hdir hdistinct h).1 hx
  rw [← hr, List.drop_left]
  refine ⟨fun hnil => hne (by rw [← hr, hnil, List.append_nil]), ?_⟩
  rw [← hr, at?_append, hdir] at he
  rw [hshallow, content_shallow]
  exact look_eq_some.2 ⟨e, he, rfl⟩

/-- A copy is part of the directory. -/
theorem copyTree_partOf (h : copyTree top root = .ok copy) : PartOf copy (.dir d es) := by
  obtain ⟨found, hrun, heq⟩ := copyTree_eq hdir
  exact (copyAll_files (partOf_empty rfl) (foundIn_of_run hdir hdistinct hrun) (heq.symm.trans h)).1

/-- A copy holds the files that its walk reaches, each with what it holds in the tree. -/
theorem copyTree_files (h : copyTree top root = .ok copy) : copy.look q = some (some f) ↔
    top.look (root ++ q) = some (some f) ∧ stagingWalk.Reaches top root (root ++ q) := by
  obtain ⟨found, hrun, heq⟩ := copyTree_eq hdir
  obtain ⟨-, hfiles⟩ := copyAll_files (partOf_empty rfl) (foundIn_of_run hdir hdistinct hrun) (heq.symm.trans h)
  have hempty : (Entry.dir "" []).look q ≠ some (some f) := by
    rw [look_empty]
    split <;> simp
  rw [hfiles, or_iff_right hempty]
  have hmem : (∃ x, (root ++ q, x) ∈ found ∧ x.content = some f) ↔
      top.look (root ++ q) = some (some f) ∧ stagingWalk.Reaches top root (root ++ q) := by
    rw [Walk.mem_run_file hdir hdistinct hrun, and_iff_right (List.prefix_append _ _)]
  rw [← hmem]
  constructor
  · rintro ⟨⟨names, x⟩, hx, rfl, hf⟩
    obtain ⟨⟨r, rfl⟩, -⟩ := (Walk.mem_run hdir hdistinct hrun).1 hx
    rw [List.drop_left]
    exact ⟨x, hx, hf⟩
  · rintro ⟨x, hx, hf⟩
    exact ⟨_, hx, List.drop_left.symm, hf⟩

/-- A directory can be copied if and only if every file that the walk reaches can be read. -/
theorem copyTree_ok_iff : (∃ copy, copyTree top root = .ok copy) ↔ ∀ names f, root <+: names →
    top.look names = some (some f) → stagingWalk.Reaches top root names → f.isReadable = true := by
  obtain ⟨found, hrun, heq⟩ := copyTree_eq hdir
  rw [heq, copyAll_ok_iff (partOf_empty rfl) (foundIn_of_run hdir hdistinct hrun)]
  constructor
  · intro h names f hroot hf hreaches
    obtain ⟨x, hx, hcontent⟩ := (Walk.mem_run_file hdir hdistinct hrun).2 ⟨hroot, hf, hreaches⟩
    exact h _ hx f hcontent
  · rintro h ⟨names, x⟩ hx f hf
    obtain ⟨hroot, hlook, hreaches⟩ := (Walk.mem_run_file hdir hdistinct hrun).1 ⟨x, hx, hf⟩
    exact h names f hroot hlook hreaches

end Directory

end CallProbe.Project
