import CallProbe.Proofs.Reading.Bodies

/-! # Calls of macros

The arguments of a macro that takes expressions are written as these are, with the commas between them, and so they read
again. Other arguments stay the tokens that they are. -/

namespace CallProbe.Source.Parse

open Grammar Grouping

variable {structs : Bool} {path t : Tree} {read : List Tree} {rest : List TokenTree} {d : Delimiter} {o c b semi : Pos}

/-- The bracketed arguments of a macro that a path names. -/
inductive MacroArgs (path : Tree) : Tree → Prop where
  | tokens {d : Delimiter} {o c : Pos} {content : List TokenTree} (hexprs : isExpressionMacro path = false) :
      MacroArgs path (.group d o [.tokens content] c)
  | read {d : Delimiter} {o c : Pos} {read : List Tree} (hexprs : isExpressionMacro path = true) (hread : Separated read) :
      MacroArgs path (.group d o [.arguments (read.flatMap Tree.toTokens) read] c)

theorem MacroArgs.reads {args : Tree} (h : MacroArgs path args) (rest : List TokenTree) :
    macroArguments reach path (args.toTokens ++ rest) = .ok (args, rest) := by
  cases h with
  | @tokens d o c content hexprs =>
    have hgroup : anyGroup (.group d o content c :: rest) = .ok ((d, o, content, c), rest) := rfl
    have htokens : (Tree.group d o [.tokens content] c).toTokens = [.group d o content c] := by
      simp [toTokens_group, toTokens_tokens]
    rw [htokens, List.singleton_append, macroArguments, bind_of_ok hgroup]
    dsimp only
    rw [if_neg (by simp [hexprs])]
    rfl
  | @read d o c read hexprs hread =>
    have hgroup : anyGroup (.group d o (read.flatMap Tree.toTokens) c :: rest) = .ok ((d, o, read.flatMap Tree.toTokens, c), rest) := rfl
    have htokens : (Tree.group d o [.arguments (read.flatMap Tree.toTokens) read] c).toTokens =
        [.group d o (read.flatMap Tree.toTokens) c] := by
      simp [toTokens_group, toTokens_arguments]
    have hargs : attempt (within (read.flatMap Tree.toTokens) (commas (reach (.expr true)))) rest = .ok (some (.list read), rest) := by
      rw [attempt, within_ok hread.readsAll]
    rw [htokens, List.singleton_append, macroArguments, bind_of_ok hgroup]
    dsimp only
    rw [if_pos hexprs, bind_of_ok hargs]
    rfl

theorem MacroArgs.settled {args : Tree} (h : MacroArgs path args) : Settled args := by
  cases h <;> exact settled_group (List.forall_mem_singleton.mpr rfl)

theorem MacroArgs.exists_group {args : Tree} (h : MacroArgs path args) : ∃ d o cs c, args = .group d o cs c := by
  cases h <;> exact ⟨_, _, _, _, rfl⟩

theorem Segments.allPlain {more : List Tree} (h : Segments more) (n : String) (p : Pos) :
    ((Tree.list (segmentOf n p :: more)).elements.all fun s => match s with
      | .node .segment [_, args] => !args.isPresent
      | _ => false) = true := by
  induction h generalizing n p with
  | nil => rfl
  | cons hn h ih => exact ih _ _

theorem Names.isPlainPath (h : Names path) : isPlainPath path = true := by
  cases h with
  | path hn hcrate h | root hn h => exact h.allPlain _ _

/-- The call of a macro. -/
def macroOf (path args : Tree) (b : Pos) : Tree := .node .macroCall [path, .leaf (.symbol "!" b), args]

theorem toTokens_macroOf (path args : Tree) (b : Pos) (rest : List TokenTree) :
    (Tree.node .macroExpr [.noAttrs, macroOf path args b]).toTokens ++ rest =
      path.toTokens ++ .punct '!' false b :: (args.toTokens ++ rest) := by
  simp [macroOf, toTokens_node, toTokens_noAttrs, toTokens_symbol, operatorTokens]

section
variable {args : Tree} (hpath : Names path) (hargs : MacroArgs path args)
include hpath hargs

theorem pathExpr_macroOf (rest : List TokenTree) :
    pathExpr reach structs ((Tree.node .macroExpr [.noAttrs, macroOf path args b]).toTokens ++ rest) =
      .ok (.node .macroExpr [.noAttrs, macroOf path args b], rest) := by
  have hbang : symbol "!" (.punct '!' false b :: (args.toTokens ++ rest)) = .ok (.leaf (.symbol "!" b), args.toTokens ++ rest) :=
    symbol_ok (by decide) b _
  have hahead : bangAhead (.punct '!' false b :: (args.toTokens ++ rest)) = true := rfl
  rw [toTokens_macroOf, pathExpr, bind_of_ok ((hpath.generic true).reads rfl (by simp)), bind_get,
    if_pos (by simp [(hpath.generic true).kind, hahead, hpath.isPlainPath]), macroCall, bind_assoc, bind_of_ok hbang, bind_assoc,
    bind_of_ok (hargs.reads rest)]
  rfl

theorem settled_macroOf : Settled (macroOf path args b) := by
  exact grouped_node (by simp [partCount?]) (by simp [(hpath.generic true).settled, hargs.settled, settled_leaf]) {}

/-- The call of a macro is an operand. -/
theorem operand_macroOf : Operand false false (.node .macroExpr [.noAttrs, macroOf path args b]) where
  base structs rest e rest' _ _ htrailers hform := by
    have hatom : atom reach structs ((Tree.node .macroExpr [.noAttrs, macroOf path args b]).toTokens ++ rest) =
        .ok (.node .macroExpr [.noAttrs, macroOf path args b], rest) := by
      rw [toTokens_macroOf, (hpath.generic true).atom_eq, ← toTokens_macroOf]
      exact pathExpr_macroOf hpath hargs rest
    refine unary_atom ?_ hatom htrailers hform
    rw [toTokens_macroOf]
    exact (hpath.generic true).bare _
  shape := ⟨isForm_node (by decide), rfl, rfl, rfl, by simp [Tree.kind?], fun s _ =>
    grouped_node (by simp [partCount?]) (by simp [settled_macroOf hpath hargs, settled_noAttrs]) s, rfl, fun rest => by
      rw [toTokens_macroOf]
      exact (hpath.generic true).front _⟩
  named _ := rfl
  early he := by cases he

variable (hbrace : isBraceCall (macroOf path args b) = false)
include hbrace

/-- An expression statement may start with the call of a macro, unless its arguments stand in braces. -/
theorem opens_macroOf (rest : List TokenTree) : Opens ((Tree.node .macroExpr [.noAttrs, macroOf path args b]).toTokens ++ rest) := by
  obtain ⟨d, o, cs, c, rfl⟩ := hargs.exists_group
  have hd : Ahead.group .brace ((Tree.group d o cs c).toTokens ++ rest) = false := by
    rw [toTokens_group]
    cases d
    · rfl
    · rfl
    · cases hbrace
  have hname : (Ahead.name ((Tree.group d o cs c).toTokens ++ rest) || Ahead.word "try" ((Tree.group d o cs c).toTokens ++ rest)) =
      false := by
    rw [toTokens_group]
    rfl
  have hplain : plainPath (path.toTokens ++ .punct '!' false b :: ((Tree.group d o cs c).toTokens ++ rest)) =
      .ok (path, .punct '!' false b :: ((Tree.group d o cs c).toTokens ++ rest)) := hpath.plainly rfl
  rw [toTokens_macroOf]
  refine (hpath.generic true).opens_of ?_
  rw [pathStart, hplain]
  dsimp only
  have hbang : Ahead.symbol "!" (.punct '!' false b :: ((Tree.group d o cs c).toTokens ++ rest)) = true := rfl
  rw [if_pos hbang, List.drop_succ_cons, List.drop_zero, hname, hd]
  rfl

theorem earlyExpr_macroOf {rest : List TokenTree} (hrest : Ends true rest) :
    reach .earlyExpr ((Tree.node .macroExpr [.noAttrs, macroOf path args b]).toTokens ++ rest) =
      .ok (.node .macroExpr [.noAttrs, macroOf path args b], rest) :=
  earlyExpr_value (operand_macroOf hpath hargs).leading.chained.valued.value rfl hrest (opens_macroOf hpath hargs hbrace rest)

theorem exprStmt_macroOf {rest : List TokenTree} (hrest : Ends true rest) :
    reach .stmt ((Tree.node .macroExpr [.noAttrs, macroOf path args b]).toTokens ++ rest) = (do
      let semi ← symbol? ";"
      if semi.isPresent || isBraceCall (macroOf path args b) then return .node .macroStmt [.noAttrs, macroOf path args b, semi]
      else return .node .exprStmt [.node .macroExpr [.noAttrs, macroOf path args b], semi] : Parser Tree) rest := by
  have hopens := opens_macroOf hpath hargs hbrace rest
  rw [stmt_exprStmt hopens.pound hopens.path hopens.binding hopens.item, exprStmt, bind_of_ok (earlyExpr_macroOf hpath hargs hbrace hrest)]
  rfl

/-- The call of a macro as a statement. -/
theorem stmt_macroOf : Stmt (.node .macroStmt [.noAttrs, macroOf path args b, .leaf (.symbol ";" semi)]) := by
  have htokens (rest : List TokenTree) : (Tree.node .macroStmt [.noAttrs, macroOf path args b, .leaf (.symbol ";" semi)]).toTokens ++
      rest = (Tree.node .macroExpr [.noAttrs, macroOf path args b]).toTokens ++ .punct ';' false semi :: rest := by
    simp [toTokens_node, toTokens_noAttrs, toTokens_symbol, operatorTokens]
  refine ⟨fun rest _ => ?_, fun rest => ?_, rfl, by simp [toTokens_node, toTokens_symbol, operatorTokens]⟩
  · rw [htokens, exprStmt_macroOf hpath hargs hbrace (.semicolon ..)]
    rfl
  · rw [htokens, toTokens_macroOf]
    exact ((hpath.generic true).front _).toFresh

/-- The call of a macro as the value of a block. -/
theorem stmts_macroOf : Stmts [.node .exprStmt [.node .macroExpr [.noAttrs, macroOf path args b], .absent]] := by
  have htokens : (Tree.node .exprStmt [.node .macroExpr [.noAttrs, macroOf path args b], .absent]).toTokens =
      (Tree.node .macroExpr [.noAttrs, macroOf path args b]).toTokens ++ [] := by
    simp [toTokens_node, toTokens_absent]
  refine .last ?_ ?_ ?_
  · rw [htokens, exprStmt_macroOf hpath hargs hbrace .nothing]
    change (if _ then _ else _ : Parser Tree) _ = _
    rw [if_neg (by simp [hbrace, Tree.isPresent, Tree.absent])]
    rfl
  · rw [htokens, toTokens_macroOf]
    exact ((hpath.generic true).front _).toFresh
  · rw [htokens, toTokens_macroOf]
    simp

end

end CallProbe.Source.Parse
