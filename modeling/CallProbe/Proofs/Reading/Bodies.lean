import CallProbe.Proofs.Reading.PathExprs

/-! # Bodies that are written as they are

What the statements of a body are made of, from the expressions that are like a block to the blocks themselves. -/

namespace CallProbe.Source.Parse

open Grammar Grouping

variable {e e' : Bool} {p q : Precedence} {t value cond body other : Tree} {ss ss' : List Tree} {o c o' c' semi i j : Pos}

/-! ### Statements -/

theorem Valued.taken (h : Valued e t) : t.toTokens ≠ [] := by
  intro hnil
  have hahead := (h.front []).expr
  rw [hnil] at hahead
  cases hahead

theorem Valued.opens (h : Valued true t) {rest : List TokenTree} (hrest : Ends true rest) : Opens (t.toTokens ++ rest) :=
  (h.early rfl).opens rest hrest.calm.toAfter

theorem Valued.stmt (h : Valued true t) : Stmt (.node .exprStmt [t, .leaf (.symbol ";" semi)]) :=
  .value h.value (closeRange_of_range h.range) h.first (h.early rfl).plain (fun _ hrest => h.opens hrest) fun rest => (h.front rest).toFresh

theorem Valued.stmts (h : Valued true t) : Stmts [.node .exprStmt [t, .absent]] :=
  .value h.value (closeRange_of_range h.range) h.first (h.early rfl).plain (fun _ hrest => h.opens hrest)
    (fun rest => (h.front rest).toFresh) h.taken

theorem settled_exprStmt {semi : Tree} (h : Settled t) (hsemi : Settled semi) : Settled (.node .exprStmt [t, semi]) :=
  grouped_node (by simp [partCount?]) (by simp [h, hsemi]) {}

theorem settled_letStmt {pat value : Tree} {l eq semi : Pos} (hpat : Settled pat) (hvalue : Settled value) :
    Settled (.node .letStmt [.noAttrs, .leaf (.word "let" l), pat, .node .letInit [.leaf (.symbol "=" eq), value, .absent],
      .leaf (.symbol ";" semi)]) := by
  have hinit : Settled (.node .letInit [.leaf (.symbol "=" eq), value, .absent]) :=
    grouped_node (by simp [partCount?]) (by simp [hvalue, settled_leaf, settled_absent]) {}
  exact grouped_node (by simp [partCount?]) (by simp [hpat, hinit, settled_leaf, settled_noAttrs]) {}

theorem settled_blockOf (h : ∀ s ∈ ss, Settled s) : Settled (blockOf ss o c) := by
  have hstmts : Settled (.node .stmts ss) := grouped_node (by simp [partCount?]) h {}
  have hgroup : Settled (.group .brace o [.noAttrs, .node .stmts ss] c) := settled_group (by simp [hstmts, settled_noAttrs])
  exact grouped_node (by simp [partCount?]) (by simpa using hgroup) {}

/-! ### Expressions that leave a loop or the function -/

theorem Valued.return_ (h : Valued e value) : Valued true (.node .returnExpr [.noAttrs, .leaf (.word "return" i), value]) where
  value := h.value.return_ fun rest => (h.front rest).expr
  range := by simp [Tree.kind?]
  grouped s _ _ := by
    rw [tree_return, h.grouped _ (Bool.and_false _) (Bool.and_false _)]
    rfl
  first := rfl
  front rest := ⟨⟨rfl, rfl, rfl, rfl, rfl⟩, rfl, rfl, rfl⟩
  early _ := ⟨fun rest _ => ⟨rfl, rfl, rfl, rfl, rfl, rfl⟩, by simp [Tree.kind?]⟩

theorem valued_return : Valued true (.node .returnExpr [.noAttrs, .leaf (.word "return" i), .absent]) where
  value := value_return
  range := by simp [Tree.kind?]
  grouped _ _ _ := rfl
  first := rfl
  front rest := ⟨⟨rfl, rfl, rfl, rfl, rfl⟩, rfl, rfl, rfl⟩
  early _ := ⟨fun rest _ => ⟨rfl, rfl, rfl, rfl, rfl, rfl⟩, by simp [Tree.kind?]⟩

/-- A label that may be left out. -/
def MaybeLabel (label : Tree) : Prop := label = .absent ∨ ∃ l q, label = .leaf (.lifetime l q)

theorem Valued.break_ {label : Tree} (h : Valued true value) (hlabel : MaybeLabel label)
    (hcolon : label.isPresent = true → NoColon value) :
    Valued true (.node .breakExpr [.noAttrs, .leaf (.word "break" i), label, value]) where
  value := value_break hlabel (.inr ⟨h.value, fun rest hrest => ⟨(h.front rest).expr, (h.opens hrest).lifetime⟩⟩) fun hl => .inl (hcolon hl)
  range := by simp [Tree.kind?]
  grouped s _ hs := by
    rw [tree_break, h.grouped _ (by simp [Surroundings.rightOf, hs]) (by simp [Surroundings.rightOf])]
    rfl
  first := rfl
  front rest := ⟨⟨rfl, rfl, rfl, rfl, rfl⟩, rfl, rfl, rfl⟩
  early _ := ⟨fun rest _ => ⟨rfl, rfl, rfl, rfl, rfl, rfl⟩, by simp [Tree.kind?]⟩

theorem valued_break {label : Tree} (hlabel : MaybeLabel label) :
    Valued true (.node .breakExpr [.noAttrs, .leaf (.word "break" i), label, .absent]) where
  value := value_break hlabel (.inl rfl) fun _ => .inr rfl
  range := by simp [Tree.kind?]
  grouped _ _ _ := rfl
  first := rfl
  front rest := ⟨⟨rfl, rfl, rfl, rfl, rfl⟩, rfl, rfl, rfl⟩
  early _ := ⟨fun rest _ => ⟨rfl, rfl, rfl, rfl, rfl, rfl⟩, by simp [Tree.kind?]⟩

/-! ### Expressions that are like a block -/

/-- An expression that is like a block, and is written as it is. -/
structure BlockLike (t : Tree) : Prop where
  blocky : Blocky t
  shape : Shape .closed t
  like : isBlockLike t = true

theorem isNamedField_of_isBlockLike (h : isBlockLike t = true) : isNamedField t = false := by
  unfold isNamedField
  split
  · exact absurd h (by simp [isBlockLike, Tree.kind?])
  · rfl

theorem BlockLike.operand (h : BlockLike t) : Operand false false t where
  base := h.blocky.base
  shape := h.shape
  named _ := isNamedField_of_isBlockLike h.like
  early he := by cases he

theorem BlockLike.stmt (h : BlockLike t) : Stmt (.node .exprStmt [t, .absent]) :=
  .blocky h.blocky h.shape.form (closeRange_of_range h.shape.range) h.shape.first
    (fun hkind => absurd h.like (by simp [isBlockLike, hkind])) h.like (fun rest => (h.shape.front rest).toFresh)
    h.operand.leading.chained.valued.taken

theorem Stmts.blockLike (h : Stmts ss) (hsettled : ∀ s ∈ ss, Settled s) :
    BlockLike (.node .blockExpr [.noAttrs, .absent, blockOf ss o c]) where
  blocky := h.blockExpr
  shape := ⟨isForm_node (by decide), rfl, rfl, rfl, by simp [Tree.kind?], fun s hs => by
    rw [tree_block, hs, settled_blockOf hsettled]
    rfl, rfl, fun rest => by
      simp only [toTokens_node, toTokens_noAttrs, toTokens_absent, toTokens_blockOf, List.flatMap_cons, List.flatMap_nil]
      exact ⟨⟨rfl, rfl, rfl, rfl, rfl⟩, rfl, rfl, rfl⟩⟩
  like := rfl

theorem Stmts.loopLike (h : Stmts ss) (hsettled : ∀ s ∈ ss, Settled s) :
    BlockLike (.node .loopExpr [.noAttrs, .absent, .leaf (.word "loop" i), blockOf ss o c]) where
  blocky := h.loop
  shape := ⟨isForm_node (by decide), rfl, rfl, rfl, by simp [Tree.kind?], fun s _ =>
    grouped_node (by simp [partCount?]) (by simp [settled_blockOf hsettled, settled_leaf, settled_absent, settled_noAttrs]) s,
    rfl, fun rest => ⟨⟨rfl, rfl, rfl, rfl, rfl⟩, rfl, rfl, rfl⟩⟩
  like := rfl

theorem settled_labelOf (l : String) (p q : Pos) : Settled (labelOf l p q) :=
  grouped_node (by simp [partCount?]) (by simp [settled_leaf]) {}

theorem Stmts.labelledLoopLike {l : String} {j k : Pos} (h : Stmts ss) (hsettled : ∀ s ∈ ss, Settled s) :
    BlockLike (.node .loopExpr [.noAttrs, labelOf l j k, .leaf (.word "loop" i), blockOf ss o c]) where
  blocky := h.labelledLoop
  shape := ⟨isForm_node (by decide), rfl, rfl, rfl, by simp [Tree.kind?], fun s _ =>
    grouped_node (by simp [partCount?]) (by simp [settled_blockOf hsettled, settled_leaf, settled_labelOf, settled_noAttrs]) s,
    rfl, fun rest => ⟨⟨rfl, rfl, rfl, rfl, rfl⟩, rfl, rfl, rfl⟩⟩
  like := rfl

theorem Stmts.whileLike (h : Stmts ss) (hsettled : ∀ s ∈ ss, Settled s) (hcond : Chained e p cond) :
    BlockLike (.node .whileExpr [.noAttrs, .absent, .leaf (.word "while" i), cond, blockOf ss o c]) where
  blocky := h.while_ (hcond.chain.value false).reads
  shape := ⟨isForm_node (by decide), rfl, rfl, rfl, by simp [Tree.kind?], fun s _ => by
    rw [tree_while, hcond.shape.grouped .head rfl, settled_blockOf hsettled]
    rfl, rfl, fun rest => ⟨⟨rfl, rfl, rfl, rfl, rfl⟩, rfl, rfl, rfl⟩⟩
  like := rfl

/-- An `if` that is written as it is. -/
structure Branch (t : Tree) : Prop where
  form : ∃ j cs, t = .node .ifExpr (.noAttrs :: .leaf (.word "if" j) :: cs)
  reads : If t
  grouped : ∀ s, Grouping.tree .least s t = t

theorem grouped_if (hcond : Chained e p cond) (hss : ∀ s ∈ ss, Settled s) (hother : Settled other) (s : Surroundings) :
    Grouping.tree .least s (.node .ifExpr [.noAttrs, .leaf (.word "if" i), cond, blockOf ss o c, other]) =
      .node .ifExpr [.noAttrs, .leaf (.word "if" i), cond, blockOf ss o c, other] := by
  rw [tree_if, hcond.shape.grouped .head rfl, settled_blockOf hss, hother]
  rfl

theorem settled_else (h : Settled t) : Settled (.node .elseBranch [.leaf (.word "else" i), t]) :=
  grouped_node (by simp [partCount?]) (by simp [h, settled_leaf]) {}

section
variable (hcond : Chained e p cond) (h : Stmts ss) (hss : ∀ s ∈ ss, Settled s)
include hcond h hss

theorem Branch.alone : Branch (.node .ifExpr [.noAttrs, .leaf (.word "if" i), cond, blockOf ss o c, .absent]) where
  form := ⟨_, _, rfl⟩
  reads := .alone (hcond.chain.value false).reads h
  grouped := grouped_if hcond hss settled_absent

theorem Branch.otherwise (h' : Stmts ss') (hss' : ∀ s ∈ ss', Settled s) :
    Branch (.node .ifExpr [.noAttrs, .leaf (.word "if" i), cond, blockOf ss o c,
      .node .elseBranch [.leaf (.word "else" j), .node .blockExpr [.noAttrs, .absent, blockOf ss' o' c']]]) where
  form := ⟨_, _, rfl⟩
  reads := .otherwise (hcond.chain.value false).reads h h'
  grouped := grouped_if hcond hss (settled_else (h'.blockLike hss').shape.settled)

theorem Branch.next (ht : Branch t) :
    Branch (.node .ifExpr [.noAttrs, .leaf (.word "if" i), cond, blockOf ss o c, .node .elseBranch [.leaf (.word "else" j), t]]) where
  form := ⟨_, _, rfl⟩
  reads := by
    obtain ⟨j, cs, hform⟩ := ht.form
    exact .next (hcond.chain.value false).reads h hform ht.reads
  grouped := grouped_if hcond hss (settled_else (ht.grouped {}))

end

theorem Branch.blockLike (h : Branch t) : BlockLike t := by
  obtain ⟨j, cs, hform⟩ := h.form
  refine ⟨h.reads.blocky hform, ?_, by rw [hform]; rfl⟩
  subst hform
  exact ⟨isForm_node (by decide), rfl, rfl, rfl, by simp [Tree.kind?], fun s _ => h.grouped s, rfl, fun rest =>
    ⟨⟨rfl, rfl, rfl, rfl, rfl⟩, rfl, rfl, rfl⟩⟩

end CallProbe.Source.Parse
