import CallProbe.Proofs.Marked.Reading

/-! # Arguments of macros

Of the arguments of macros, those of the macros of the standard library that take expressions are read, if they are
expressions between commas. All others stay the tokens that they are, and no walk looks into them. -/

namespace CallProbe.Source

/-- The macros of the standard library that take expressions between commas. -/
def standardMacros : List String :=
  ["format", "println", "eprintln", "print", "eprint", "write", "writeln", "panic", "assert", "assert_eq", "assert_ne",
    "debug_assert", "debug_assert_eq", "debug_assert_ne", "vec", "format_args", "dbg", "todo", "unimplemented",
    "unreachable"]

/-- A path to one of these macros: its name alone, or in a crate of the standard library. -/
inductive NamesStandardMacro : Tree → Prop
  | alone {lead segments name args : Tree} (hsegments : segments.elements = [.node .segment [name, args]])
      (hname : name.text ∈ standardMacros) : NamesStandardMacro (.node .path [lead, segments])
  | inCrate {lead segments crate crateArgs name args : Tree}
      (hsegments : segments.elements = [.node .segment [crate, crateArgs], .node .segment [name, args]])
      (hcrate : crate.text ∈ ["std", "core", "alloc"]) (hname : name.text ∈ standardMacros) :
      NamesStandardMacro (.node .path [lead, segments])

theorem contains_expressionMacros (name : String) : expressionMacros.contains name = true ↔ name ∈ standardMacros := by
  rw [List.contains_iff_mem]
  exact (by decide : expressionMacros.Perm standardMacros).mem_iff

theorem isExpressionMacro_iff {path : Tree} : isExpressionMacro path = true ↔ NamesStandardMacro path := by
  constructor
  · intro h
    unfold isExpressionMacro at h
    split at h
    · split at h
      · rename_i hsegments
        exact .alone hsegments ((contains_expressionMacros _).mp h)
      · rename_i hsegments
        obtain ⟨hcrate, hname⟩ := Bool.and_eq_true_iff.mp h
        exact .inCrate hsegments (List.contains_iff_mem.mp hcrate) ((contains_expressionMacros _).mp hname)
      · cases h
    · cases h
  · intro h
    cases h with
    | alone hsegments hname => simpa [isExpressionMacro, hsegments] using (contains_expressionMacros _).mpr hname
    | inCrate hsegments hcrate hname =>
      have hname := (contains_expressionMacros _).mpr hname
      have hcrate := List.contains_iff_mem.mpr hcrate
      simp only [isExpressionMacro, hsegments, hcrate, hname, Bool.and_self]

namespace Parse

theorem attempt_within {α : Type} {p : Parser α} {content ts rest : List TokenTree} {a? : Option α}
    (h : attempt (within content p) ts = .ok (a?, rest)) :
    rest = ts ∧ ∀ a, a? = some a ↔ p content = .ok (a, []) := by
  unfold attempt within at h
  cases hp : p content with
  | error e =>
    rw [hp] at h
    cases h
    simp
  | ok r =>
    obtain ⟨a, left⟩ := r
    cases left with
    | nil =>
      rw [hp] at h
      cases h
      simp
    | cons u us =>
      rw [hp] at h
      cases h
      simp

variable {reach : Reach} {path t : Tree} {ts rest content : List TokenTree}

/-- What the bracketed tokens after a macro's name are read as: expressions if the macro is one of the standard library that
    takes expressions and they are such, and tokens otherwise. -/
inductive ArgumentsRead (reach : Reach) (path : Tree) (content : List TokenTree) : Tree → Prop
  | expressions {args : Tree} (hpath : NamesStandardMacro path)
      (hread : commas (reach (.expr true)) content = .ok (args, [])) :
      ArgumentsRead reach path content (.arguments content args.children)
  | tokens (hother : NamesStandardMacro path → ∀ args, commas (reach (.expr true)) content ≠ .ok (args, [])) :
      ArgumentsRead reach path content (.tokens content)

theorem macroArguments_read (h : macroArguments reach path ts = .ok (t, rest)) :
    ∃ d o content c args, ts = .group d o content c :: rest ∧ t = .group d o [args] c ∧
      ArgumentsRead reach path content args := by
  unfold macroArguments at h
  obtain ⟨⟨d, o, content, c⟩, mid, hgroup, hrest⟩ := bind_ok h
  obtain rfl : ts = .group d o content c :: mid := by
    rw [anyGroup, bind_get] at hgroup
    split at hgroup
    · cases hgroup
      rfl
    · cases hgroup
  cases hpath : isExpressionMacro path with
  | true =>
    rw [hpath] at hrest
    obtain ⟨args?, mid', hread, hrest⟩ := bind_ok hrest
    obtain ⟨rfl, hargs⟩ := attempt_within hread
    cases args? with
    | none =>
      obtain ⟨rfl, rfl⟩ := pure_ok hrest
      refine ⟨d, o, content, c, _, rfl, rfl, .tokens fun _ args hread' => ?_⟩
      cases (hargs args).mpr hread'
    | some args =>
      obtain ⟨rfl, rfl⟩ := pure_ok hrest
      exact ⟨d, o, content, c, _, rfl, rfl, .expressions (isExpressionMacro_iff.mp hpath) ((hargs args).mp rfl)⟩
  | false =>
    rw [hpath] at hrest
    obtain ⟨rfl, rfl⟩ := pure_ok hrest
    refine ⟨d, o, content, c, _, rfl, rfl, .tokens fun hnames => ?_⟩
    rw [isExpressionMacro_iff.mpr hnames] at hpath
    cases hpath

end Parse

end CallProbe.Source
