import CallProbe.Project.Selection

/-! # Selections of a module

A module is a file of its name, or all that is below a directory of its name. A selection of a module looks at the file
and at the directory that holds it, and at no directory above (`selects_module_iff`), so that of a module with
directories inside only the outer files are selected. -/

namespace CallProbe.Files.Path

/-- A path that goes down through directories to a file. A dot may stand first. -/
def Descends (p : String) (dirs : List String) (file : String) : Prop :=
  components p = (dirs ++ [file]).map .name ∨ components p = .here :: (dirs ++ [file]).map .name

instance (p : String) (dirs : List String) (file : String) : Decidable (Descends p dirs file) :=
  inferInstanceAs (Decidable (_ ∨ _))

section
variable {p : String} {dirs : List String} {file stem : String}

theorem nameOf?_map (names : List String) : nameOf? (names.map .name) = names.getLast? := by
  rw [nameOf?, List.getLast?_map]
  cases names.getLast? <;> rfl

theorem nameOf?_here_map (names : List String) : nameOf? (.here :: names.map .name) = names.getLast? := by
  cases names with
  | nil => rfl
  | cons n names => rw [← nameOf?_map, List.map_cons, nameOf?, nameOf?, List.getLast?_cons_cons]

theorem Descends.fileName? (h : Descends p dirs file) : fileName? p = some file := by
  rcases h with h | h
  · rw [Path.fileName?, h, nameOf?_map, List.getLast?_concat]
  · rw [Path.fileName?, h, nameOf?_here_map, List.getLast?_concat]

theorem Descends.parentName? (h : Descends p dirs file) : parentName? p = dirs.getLast? := by
  have hnames : (dirs ++ [file]).map Component.name = dirs.map .name ++ [.name file] := by
    rw [List.map_append, List.map_singleton]
  rcases h with h | h
  · rw [Path.parentName?, h, hnames, List.getLast?_concat, List.dropLast_concat]
    exact nameOf?_map dirs
  · rw [Path.parentName?, h, hnames, ← List.cons_append, List.getLast?_concat, List.dropLast_concat]
    exact nameOf?_here_map dirs

theorem cutName_source (h : stem ≠ "") : cutName (stem ++ ".rs") = (stem, some "rs") := by
  have hchars : (stem ++ ".rs").toList = stem.toList ++ ['.', 'r', 's'] := String.toList_append
  have hafter : ((stem ++ ".rs").toList.reverse.takeWhile (· != '.')).reverse = ['r', 's'] := by
    rw [hchars, List.reverse_append]
    rfl
  have hbefore : (stem ++ ".rs").toList.take ((stem ++ ".rs").toList.length - ['r', 's'].length - 1) = stem.toList := by
    rw [hchars, List.length_append]
    exact List.take_left' (by simp)
  have hnonempty : stem.toList ≠ [] := fun hnil => h (String.toList_eq_nil_iff.mp hnil)
  rw [cutName, hafter, hbefore, if_neg, String.ofList_toList]
  rw [hchars]
  simp [hnonempty]

theorem Descends.stem? (h : Descends p dirs (stem ++ ".rs")) (hstem : stem ≠ "") : stem? p = some stem := by
  rw [Path.stem?, h.fileName?, Option.map_some, cutName_source hstem]

end

end CallProbe.Files.Path

namespace CallProbe.Project

open Files

/-- A selection of a module selects the functions of a source if the source or the directory that holds it has the name
    of the module. That is all that is below a directory of the name just if no directory farther up has the name
    without one of these two having it. -/
theorem selects_module_iff {p stem : String} {dirs : List String} (h : Path.Descends p dirs (stem ++ ".rs"))
    (hstem : stem ≠ "") (name function : String) :
    ((Selection.byModule name).selects p function = true ↔ stem = name ∨ dirs.getLast? = some name) ∧
    (((Selection.byModule name).selects p function = true ↔ stem = name ∨ name ∈ dirs) ↔
      (name ∈ dirs.dropLast → stem = name ∨ dirs.getLast? = some name)) := by
  have hselects : (Selection.byModule name).selects p function = true ↔ stem = name ∨ dirs.getLast? = some name := by
    rw [Selection.selects, h.parentName?, h.stem? hstem, Bool.or_eq_true, beq_iff_eq, beq_iff_eq, Option.some_inj, or_comm]
  have hdirs : name ∈ dirs ↔ name ∈ dirs.dropLast ∨ dirs.getLast? = some name := by
    rcases List.eq_nil_or_concat dirs with rfl | ⟨above, last, rfl⟩
    · simp
    · simp [eq_comm]
  refine ⟨hselects, ?_⟩
  rw [hselects, hdirs]
  constructor
  · intro hall hfar
    exact hall.mpr (.inr (.inl hfar))
  · intro hnear
    exact ⟨fun hsel => hsel.imp_right .inr, fun hany => hany.elim .inl fun hdir => hdir.elim hnear .inr⟩

/-- A file of a module in a directory, and one of a module in a file. -/
theorem selects_module_near :
    (Selection.byModule "net").selects "./net/deep/net/x.rs" "f" = true ∧
    (Selection.byModule "net").selects "deep//net.rs" "f" = true := by
  have hdir : Path.Descends "./net/deep/net/x.rs" ["net", "deep", "net"] ("x" ++ ".rs") := by decide
  have hfile : Path.Descends "deep//net.rs" ["deep"] ("net" ++ ".rs") := by decide
  exact ⟨(selects_module_iff hdir (by decide) "net" "f").1.mpr (.inr rfl),
    (selects_module_iff hfile (by decide) "net" "f").1.mpr (.inl rfl)⟩

/-- A source in a directory of the module that is not directly in it is not selected. -/
theorem selects_module_nested : ¬ ∀ (p stem : String) (dirs : List String) (name function : String),
    Path.Descends p dirs (stem ++ ".rs") → stem ≠ "" →
      ((Selection.byModule name).selects p function = true ↔ stem = name ∨ name ∈ dirs) := by
  intro hall
  have hselects := (hall "net/deep/x.rs" "x" ["net", "deep"] "net" "f" (by decide) (by decide)).mpr (.inr (by decide))
  exact absurd hselects (by decide)

end CallProbe.Project
