import CallProbe.Proofs.Reading.Generated
import CallProbe.Proofs.Wrap.Outcome

/-! # What takes the place of a call

The call of `finish` is an operand like the call inside it, so it can be read wherever the call could: `operand_wrapped`. -/

namespace CallProbe.Probe

open Source Call Parse

theorem valued_number (n : Nat) : Valued false (Make.literal (toString n ++ "u32")) := (valued_literal _).late

/-- The static of a call site is a block that reads again. -/
theorem blockLike_toStatic (site : Site) : BlockLike site.toStatic := by
  have hfile : Valued false (Make.rootMacro ["core", "file"]) := valued_rootMacro (by simp) (by decide) (by decide)
  have hline : Valued false (Make.rootMacro ["core", "line"]) := valued_rootMacro (by simp) (by decide) (by decide)
  have hcolumn : Valued false (Make.rootMacro ["core", "column"]) := valued_rootMacro (by simp) (by decide) (by decide)
  let location : List Tree := if 0 < site.line
    then [Make.literal (toString site.line ++ "u32"), Make.literal (toString (max site.endLine site.line) ++ "u32"),
      Make.literal (toString site.column ++ "u32")]
    else [Make.rootMacro ["core", "line"], Make.rootMacro ["core", "line"], Make.rootMacro ["core", "column"]]
  have hlocation : ∀ a ∈ location, Valued false a := by
    intro a ha
    simp only [location] at ha
    split at ha
    · simp only [List.mem_cons, List.not_mem_nil, or_false] at ha
      rcases ha with rfl | rfl | rfl <;> exact valued_number _
    · simp only [List.mem_cons, List.not_mem_nil, or_false] at ha
      rcases ha with rfl | rfl | rfl
      · exact hline
      · exact hline
      · exact hcolumn
  let args : List Tree := [Make.string site.name, Make.string site.function, Make.rootMacro ["core", "file"]] ++ location ++
    [Make.string site.snippet]
  have hargs : ∀ a ∈ args, Valued false a := by
    intro a ha
    simp only [args, List.mem_append, List.mem_cons, List.not_mem_nil, or_false] at ha
    rcases ha with ((rfl | rfl | rfl) | ha) | rfl
    · exact (valued_literal _).late
    · exact (valued_literal _).late
    · exact hfile
    · exact hlocation a ha
    · exact (valued_literal _).late
  have hvalue : Operand true false (Make.call (Make.rootPath ["shallow_runtime", "CallSite", "new"]) (Make.terminated args)) :=
    operand_rootCall (by simp) (by decide) Pos.none (separated_terminated hargs) (settled_terminated hargs)
  obtain ⟨hstmt, hsettled⟩ := @stmt_staticItem _ _ "__SHALLOW_SITE" ["shallow_runtime", "CallSite"] (by decide) (by simp)
    (by decide) hvalue.leading.chained.valued
  have href : Valued true (Make.reference "__SHALLOW_SITE") := valued_reference (by decide)
  refine (Stmts.cons hstmt href.stmts).blockLike ?_
  intro s hs
  simp only [List.mem_cons, List.not_mem_nil, or_false] at hs
  rcases hs with rfl | rfl
  · exact hsettled
  · exact settled_exprStmt href.settled rfl

theorem allCallable {more : List Tree} (h : Segmented true more) {s : Tree} (hs : (∃ n p, s = segmentOf n p) ∨ Segment true s) :
    ((Tree.list (s :: more)).elements.all fun s => match s with
      | .node .segment [_, .node .angleArgs (colons :: _)] => colons.isPresent
      | .node .segment [_, args] => !args.isPresent
      | _ => false) = true := by
  induction h generalizing s with
  | nil =>
    rcases hs with ⟨n, p, rfl⟩ | hs
    · rfl
    · rcases hs with _ | ⟨hn, _ | ⟨hexpr, _⟩⟩
      · rfl
      · rfl
      · cases hexpr
  | cons hs' h ih =>
    rcases hs with ⟨n, p, rfl⟩ | hs
    · exact ih (.inr hs')
    · rcases hs with _ | ⟨hn, _ | ⟨hexpr, _⟩⟩
      · exact ih (.inr hs')
      · exact ih (.inr hs')
      · cases hexpr

theorem isCallee_of_path {path : Tree} (h : Generic true path) : isCallee path = true := by
  cases h with
  | @start n p more hn hcrate h =>
    have hne : (n == "try") = false := beq_eq_false_iff_ne.mpr (hn.ne (by decide))
    refine Bool.and_eq_true_iff.mpr ⟨allCallable h (.inl ⟨n, p, rfl⟩), ?_⟩
    cases h with
    | nil => exact congrArg (fun b => !(true && b)) hne
    | cons hs h => cases h <;> rfl
  | @argued n p args more hn hargs h =>
    have hne : (n == "try") = false := beq_eq_false_iff_ne.mpr (hn.ne (by decide))
    refine Bool.and_eq_true_iff.mpr ⟨allCallable h (.inr (.argued hn hargs)), ?_⟩
    cases h with
    | nil => exact congrArg (fun b => !(true && b)) hne
    | cons hs h => cases h <;> rfl
  | root hs h => exact Bool.and_eq_true_iff.mpr ⟨allCallable h (.inr hs), rfl⟩

section
variable {wrapper call : Tree} {e : Bool}

/-- What is generated in front of a call is an argument. -/
theorem valued_guard (hw : Generic true wrapper) (site : Site) :
    Valued true (Make.call (.node .pathExpr [.noAttrs, wrapper]) [site.toStatic]) := by
  have hsite := (blockLike_toStatic site).operand.leading.chained.valued
  exact ((operand_path hw).call (.last hsite.value.reads hsite.taken) (by simpa using hsite.settled)).leading.chained.valued

/-- What takes the place of a call that is an operand is an operand. -/
theorem operand_wrapped (hw : Generic true wrapper) (site : Site) (hcall : Valued e call) : Operand true false (wrapped wrapper site call) := by
  have hguard := valued_guard hw site
  have hargs : guardArgs wrapper site.toStatic = .ok [Make.call (.node .pathExpr [.noAttrs, wrapper]) [site.toStatic]] := by
    rw [guardArgs, if_pos (isCallee_of_path hw)]
  rw [wrapped, hargs]
  refine operand_rootCall (by simp) (by decide) site.start
    (.cons hguard.value.reads hguard.taken (.last hcall.value.reads hcall.taken)) ?_
  intro a ha
  simp only [Except.toOption, Option.getD_some, List.mem_append, List.mem_cons, List.not_mem_nil, or_false] at ha
  rcases ha with rfl | rfl | rfl
  · exact hguard.settled
  · rfl
  · exact hcall.settled

end

end CallProbe.Probe
