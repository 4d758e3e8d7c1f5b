import CallProbe.Project.Stage
import CallProbe.Project.Targets
import CallProbe.Proofs.Files.Found

/-! # What arrives in a copy

The walk over the sources and the walk of a copy read the same ignore files, but not the same rules in them: rules for
version control count for the search only inside a repository, and the directories on the way to the sources count for the
copy only. `Arrives` says of a file that was found whether the copy has it, by the rules alone (`reaches_iff_arrives`). -/

namespace CallProbe.Project

open Files Entry

variable {top : Entry} {src project root names : List String} {n : String}

/-! ### Rules on the way -/

/-- What the ignore files above an entry say about it, those for version control apart. -/
def plainVerdict? (top : Entry) (names : List String) : Option Bool :=
  (Walk.rulesAbove top names).findSome? fun r => Rule.verdict? r.plain (names.drop r.depth) (top.isDirAt names)

/-- What the rules for version control of every directory above an entry say about it. -/
def versionVerdict? (top : Entry) (names : List String) : Option Bool :=
  ((Walk.rulesAbove top names).findSome? fun r => Rule.verdict? r.versioned (names.drop r.depth) (top.isDirAt names)).or
    ((Walk.rulesAbove top names).findSome? fun r => Rule.verdict? r.excluded (names.drop r.depth) (top.isDirAt names))

theorem stagingWalk_skips (top : Entry) (names : List String) :
    stagingWalk.skips (Walk.rulesAbove top names) names (top.isDirAt names) =
      ((plainVerdict? top names).or (versionVerdict? top names) == some false) := by
  have hverdict : stagingWalk.verdict? (Walk.rulesAbove top names) names (top.isDirAt names) =
      (plainVerdict? top names).or (versionVerdict? top names) := by
    rw [versionVerdict?, ← Option.or_assoc]
    rfl
  unfold Walk.skips
  rw [hverdict]
  cases (plainVerdict? top names).or (versionVerdict? top names) with
  | none => rfl
  | some keeps => cases keeps <;> rfl

/-- What a walk over sources goes through no plain rule leaves out. -/
theorem plainVerdict?_of_source (h : sourceWalk.leaves top src names = false) : plainVerdict? top names ≠ some false := by
  intro hplain
  have hverdict : sourceWalk.verdict? (Walk.rulesAbove top names) names (top.isDirAt names) = some false := by
    unfold plainVerdict? at hplain
    simp only [Walk.verdict?, hplain, Option.some_or]
  rw [Walk.leaves, Walk.skips, hverdict] at h
  simp at h

/-- What a walk over sources goes through is copied unless a rule for version control leaves it out. -/
theorem stagingWalk_leaves (hsource : sourceWalk.leaves top src names = false) (hdeep : root.length + 1 < names.length) :
    stagingWalk.leaves top root names = false ↔ (plainVerdict? top names = none → versionVerdict? top names ≠ some false) := by
  have hplain := plainVerdict?_of_source hsource
  have hlong : (names.length == root.length + 1) = false := by simp; omega
  rw [Walk.leaves, stagingWalk_skips, hlong, Bool.false_and, Bool.or_false]
  cases h : plainVerdict? top names with
  | none => simp
  | some keeps =>
    cases keeps with
    | true => simp
    | false => exact absurd h hplain

/-- Whether what names lead to below a source directory is copied with the project: no ignore file leaves out the sources or
a directory that they are in, they are not in the build directory, and below them no rule for version control leaves anything
out on the way that no plain rule keeps. -/
def Arrives (top : Entry) (root src names : List String) : Prop :=
  (∀ p ∈ src.inits, root.length < p.length → (plainVerdict? top p).or (versionVerdict? top p) ≠ some false) ∧
  ¬root ++ ["target"] <+: src ∧
  ∀ p ∈ names.inits, src.length < p.length → plainVerdict? top p = none → versionVerdict? top p ≠ some false

instance (top : Entry) (root src names : List String) : Decidable (Arrives top root src names) :=
  inferInstanceAs (Decidable (_ ∧ _ ∧ _))

/-- The walk of a copy reaches the sources if no ignore file leaves them out and they are not in the build directory. -/
theorem reaches_sources (hroot : root <+: src) : stagingWalk.Reaches top root src ↔
    (∀ p ∈ src.inits, root.length < p.length → (plainVerdict? top p).or (versionVerdict? top p) ≠ some false) ∧
      ¬root ++ ["target"] <+: src := by
  have hleaves : ∀ p ∈ src.inits, root.length < p.length → (stagingWalk.leaves top root p = false ↔
      (plainVerdict? top p).or (versionVerdict? top p) ≠ some false ∧ p ≠ root ++ ["target"]) := by
    intro p hp hlong
    obtain ⟨r, rfl⟩ := List.prefix_of_prefix_length_le hroot ((List.mem_inits _ _).1 hp) hlong.le
    obtain ⟨n, rest, rfl⟩ := List.exists_cons_of_ne_nil fun hr : r = [] => by simp [hr] at hlong
    rw [Walk.leaves, stagingWalk_skips, Bool.or_eq_false_iff]
    refine and_congr (by simp) ?_
    cases rest with
    | nil => simp [stagingWalk]
    | cons m rest => simp
  rw [Walk.reaches_iff_inits hroot]
  constructor
  · intro h
    refine ⟨fun p hp hlong => ((hleaves p hp hlong).1 (h p hp hlong)).1, fun htarget => ?_⟩
    have hmem := (List.mem_inits _ _).2 htarget
    have hlong : root.length < (root ++ ["target"]).length := by simp
    exact ((hleaves _ hmem hlong).1 (h _ hmem hlong)).2 rfl
  · rintro ⟨hrules, htarget⟩ p hp hlong
    exact (hleaves p hp hlong).2 ⟨hrules p hp hlong, fun heq => htarget (heq ▸ (List.mem_inits _ _).1 hp)⟩

/-- The walk of a copy reaches a file that was found among the sources if and only if it arrives. -/
theorem reaches_iff_arrives (hroot : root <+: project) (hsource : sourceWalk.Reaches top (project ++ [n]) names)
    (hnames : project ++ [n] <+: names) :
    stagingWalk.Reaches top root names ↔ Arrives top root (project ++ [n]) names := by
  have hup : root <+: project ++ [n] := hroot.trans (List.prefix_append _ _)
  have hshort : root.length < (project ++ [n]).length := by
    have hle := hroot.length_le
    rw [List.length_append, List.length_singleton]
    omega
  have hbelow : ∀ p ∈ names.inits, (project ++ [n]).length < p.length →
      (stagingWalk.leaves top root p = false ↔ (plainVerdict? top p = none → versionVerdict? top p ≠ some false)) := by
    intro p hp hlong
    exact stagingWalk_leaves ((Walk.reaches_iff_inits hnames).1 hsource p hp hlong) (by omega)
  rw [Arrives, ← and_assoc, ← reaches_sources hup, Walk.reaches_iff_inits (hup.trans hnames), Walk.reaches_iff_inits hup]
  constructor
  · intro h
    refine ⟨fun p hp hlong => h p ?_ hlong, fun p hp hlong => (hbelow p hp hlong).1 (h p hp (hshort.trans hlong))⟩
    exact (List.mem_inits _ _).2 (((List.mem_inits _ _).1 hp).trans hnames)
  · rintro ⟨habove, h⟩ p hp hlong
    by_cases hdeep : (project ++ [n]).length < p.length
    · exact (hbelow p hp hdeep).2 (h p hp hdeep)
    · have hps := List.prefix_of_prefix_length_le ((List.mem_inits _ _).1 hp) hnames (Nat.le_of_not_lt hdeep)
      exact habove p ((List.mem_inits _ _).2 hps) hlong

end CallProbe.Project
