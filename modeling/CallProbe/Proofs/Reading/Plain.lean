import CallProbe.Proofs.Grouping.Settled
import CallProbe.Proofs.Reading.Statements

/-! # Expressions that are written as they are

A tree is printed with the parentheses that its operators need. An expression that needs none is written as it is, and then
it reads as it is written: `Operand`, `Leading`, `Chained` and `Valued` say both of an expression, for each of the places
where the grammar reads one. -/

namespace CallProbe.Source.Parse

open Grammar Grouping

variable {t : Tree} {p q : Precedence}

/-! ### What is said of an expression -/

/-- Tokens that an expression starts with. -/
structure Fronts (ts : List TokenTree) : Prop extends Fresh ts where
  expr : exprAhead ts = true
  raw : Ahead.word "raw" ts = false
  mutable : Ahead.word "mut" ts = false

/-- An expression that is written as it is, without parentheses, wherever operators around it bind as loosely as the given
    precedence. -/
structure Shape (p : Precedence) (t : Tree) : Prop where
  form : IsForm t
  natural : naturalPrecedence t = p
  jump : isBareJump t = false
  free : takesRest t = false
  range : t.kind? ≠ some .rangeExpr
  grouped : ∀ s : Surroundings, s.optional = false → Grouping.tree .least s t = t
  first : attrsToFirst .noAttrs t = t
  front : ∀ rest, Fronts (t.toTokens ++ rest)

theorem closeRange_of_range (h : t.kind? ≠ some .rangeExpr) : closeRange t = t := by
  unfold closeRange
  split
  · exact absurd rfl h
  · rfl

theorem Shape.precedenceIn (h : Shape p t) (s : Surroundings) : Grouping.precedenceIn s t = p := by
  simp [Grouping.precedenceIn, h.jump, h.free, h.natural]

theorem Shape.leftApart (h : Shape q t) (s : Surroundings) (hp : p.rank ≤ q.rank)
    (hstrict : p = .compare ∨ p = .range → p.rank < q.rank) (hassign : p = .assign → Precedence.range.rank < q.rank) :
    Grouping.leftApart .least s p t = false := by
  have hleft : q.rank ≤ (leftPrecedence .least s t).rank := by
    unfold leftPrecedence
    split
    · exact rank_le_closed q
    · exact Nat.le_of_eq (congrArg Precedence.rank (h.precedenceIn s)).symm
  unfold Grouping.leftApart
  split
  · have := hassign rfl
    simpa using Nat.lt_of_lt_of_le this hleft
  · have := hstrict (.inl rfl)
    simpa using Nat.lt_of_lt_of_le this hleft
  · have := hstrict (.inr rfl)
    simpa using Nat.lt_of_lt_of_le this hleft
  · simpa using Nat.le_trans hp hleft

theorem rank_le_ite (b : Bool) : q.rank ≤ (if b then Precedence.closed else q).rank := by
  cases b
  · exact Nat.le_refl _
  · exact rank_le_closed q

theorem Shape.rightApart (h : Shape q t) (s : Surroundings) (hp : p.rank < q.rank ∨ p = .prefixed ∧ p.rank ≤ q.rank) :
    Grouping.rightApart .least s p t = false := by
  have hright : q.rank ≤ (rightPrecedence (reading .least t) s t).rank := by
    unfold rightPrecedence
    simp only [h.precedenceIn]
    exact rank_le_ite _
  unfold Grouping.rightApart
  split
  · rfl
  · have : Precedence.prefixed.rank ≤ q.rank := hp.elim Nat.le_of_lt And.right
    simpa using Nat.le_trans this hright
  · have : Precedence.binding.rank < q.rank := hp.elim id fun h => absurd h.1 (by decide)
    simpa using Nat.le_of_lt (Nat.lt_of_lt_of_le this hright)
  · rename_i hne _
    have : p.rank < q.rank := hp.elim id fun h => absurd h.1 hne
    simpa using Nat.lt_of_lt_of_le this hright

/-- An expression with which a statement may start. -/
structure Early (t : Tree) : Prop where
  opens : ∀ rest, After true rest → Opens (t.toTokens ++ rest)
  plain : t.kind? ≠ some .macroExpr

/-- An operand. `early` says whether a statement may start with it, `named` whether it may be a field with a name. -/
structure Operand (early named : Bool) (t : Tree) : Prop where
  base : Base t
  shape : Shape .closed t
  named : named = false → isNamedField t = false
  early : early = true → Early t

/-- An operand, maybe with operators in front of it. -/
structure Leading (early : Bool) (p : Precedence) (t : Tree) : Prop where
  lead : First t
  shape : Shape p t
  tight : Precedence.prefixed.rank ≤ p.rank
  early : early = true → Early t

/-- A chain of operators that bind at least as tightly as the given precedence. -/
structure Chained (early : Bool) (p : Precedence) (t : Tree) : Prop where
  chain : Chain p t
  shape : Shape p t
  tight : Precedence.range.rank < p.rank
  early : early = true → Early t

/-- A whole expression, which is no condition. -/
structure Valued (early : Bool) (t : Tree) : Prop where
  value : Value true t
  range : t.kind? ≠ some .rangeExpr
  grouped : ∀ s : Surroundings, s.optional = false → s.condition = false → Grouping.tree .least s t = t
  first : attrsToFirst .noAttrs t = t
  front : ∀ rest, Fronts (t.toTokens ++ rest)
  early : early = true → Early t

/-- A tree that is written as it is where nothing is around it. -/
def Settled (t : Tree) : Prop := Grouping.tree .least {} t = t

theorem settled_all {ts : List Tree} (h : ∀ t ∈ ts, Settled t) : ts.map (Grouping.tree .least {}) = ts :=
  (List.map_congr_left h).trans (List.map_id ts)

theorem settled_group {d : Delimiter} {o c : Pos} {ts : List Tree} (h : ∀ t ∈ ts, Settled t) : Settled (.group d o ts c) := by
  rw [Settled, tree_group, settled_all h]

theorem grouped_node {k : Kind} {ts : List Tree} (hk : partCount? k ≠ some ts.length) (h : ∀ t ∈ ts, Settled t)
    (s : Surroundings) : Grouping.tree .least s (.node k ts) = .node k ts := by
  rw [tree_node hk, settled_all h]

theorem settled_list {ts : List Tree} (h : ∀ t ∈ ts, Settled t) : Settled (.list ts) :=
  grouped_node (by simp [partCount?]) h {}

theorem settled_leaf (l : Leaf) : Settled (.leaf l) := rfl

theorem settled_noAttrs : Settled .noAttrs := rfl

theorem settled_absent : Settled .absent := rfl

theorem Shape.settled (h : Shape p t) : Settled t := h.grouped {} rfl

theorem Valued.settled {e : Bool} (h : Valued e t) : Settled t := h.grouped {} rfl rfl

theorem Operand.leading {e n : Bool} (h : Operand e n t) : Leading e .closed t where
  lead := ⟨fun _ _ hrest => h.base.unary h.shape.form hrest.calm, h.shape.form, h.shape.range, by
    have hnatural := h.shape.natural
    unfold isComparison
    split
    · exact absurd hnatural (operatorPrecedence_ne_closed _)
    · rfl⟩
  shape := h.shape
  tight := by decide
  early := h.early

theorem Leading.chained {e : Bool} (h : Leading e p t) : Chained e p t where
  chain := h.lead.chain p
  shape := h.shape
  tight := Nat.lt_of_lt_of_le (by decide) h.tight
  early := h.early

theorem Chained.valued {e : Bool} (h : Chained e p t) : Valued e t where
  value := h.chain.value true
  range := h.shape.range
  grouped s hs _ := h.shape.grouped s hs
  first := h.shape.first
  front := h.shape.front
  early := h.early

/-! ### Operands -/

section
variable {e n : Bool} {base callee key arg : Tree} {args : List Tree} {o c dot mark : Pos} {member : String}

/-- What reads on behind an operand starts as the operand does. -/
theorem Operand.extend {n' : Bool} (h : Operand e n base) (more : List TokenTree) (htokens : t.toTokens = base.toTokens ++ more)
    (hafter : ∀ rest, After true rest → After true (more ++ rest)) (hbase : Base t) (hform : IsForm t)
    (hnatural : naturalPrecedence t = .closed) (hjump : isBareJump t = false) (hfree : takesRest t = false)
    (hrange : t.kind? ≠ some .rangeExpr) (hfirst : attrsToFirst .noAttrs t = t)
    (hgrouped : ∀ s : Surroundings, s.optional = false → Grouping.tree .least s t = t)
    (hnamed : n' = false → isNamedField t = false) (hplain : t.kind? ≠ some .macroExpr) : Operand e n' t where
  base := hbase
  shape := ⟨hform, hnatural, hjump, hfree, hrange, hgrouped, hfirst, fun rest => by
    rw [htokens, List.append_assoc]
    exact h.shape.front _⟩
  named := hnamed
  early he := ⟨fun rest hrest => by
    rw [htokens, List.append_assoc]
    exact (h.early he).opens _ (hafter rest hrest), hplain⟩

theorem Operand.leftGrouped (h : Operand e n base) {s : Surroundings} (hs : s.optional = false) (p : Precedence) (m : Bool)
    (hp : p = .closed) : keepApart (leftApart .least (s.leftOf p m) p base) (s.leftOf p m) (fun s => Grouping.tree .least s base) =
      base := by
  have hapart : leftApart .least (s.leftOf p m) p base = false := by
    rw [hp]
    exact h.shape.leftApart _ (Nat.le_refl _) (by simp) (by simp)
  rw [hapart]
  exact h.shape.grouped _ hs

theorem Operand.call (h : Operand e false callee) (hargs : Separated args) (hsettled : ∀ a ∈ args, Settled a) :
    Operand e false (.node .callExpr [.noAttrs, callee, .group .paren o [.list args] c]) := by
  refine h.extend [.group .paren o (args.flatMap Tree.toTokens) c]
    (by simp [toTokens_node, toTokens_group, toTokens_noAttrs, Tree.list]) (fun _ _ => .group (by decide) ..)
    (h.base.call (h.named rfl) hargs.readsAll) (isForm_node (by decide)) rfl rfl rfl (by simp [Tree.kind?]) rfl (fun s hs => ?_)
    (fun _ => rfl) (by simp [Tree.kind?])
  have hgroup : Settled (.group .paren o [.list args] c) :=
    settled_group (by simpa using settled_list hsettled)
  rw [tree_call]
  dsimp only
  rw [h.named rfl, Bool.false_or, h.leftGrouped hs _ _ rfl, hgroup, settled_noAttrs]

theorem Operand.method (h : Operand e n base) (hn : Ahead.keywords.contains member = false) {q : Pos} (hargs : Separated args)
    (hsettled : ∀ a ∈ args, Settled a) :
    Operand e false (.node .methodCallExpr [.noAttrs, base, .leaf (.symbol "." dot), .leaf (.word member q), .absent,
      .group .paren o [.list args] c]) := by
  refine h.extend ((Tree.leaf (.symbol "." dot)).toTokens ++ [.ident member q, .group .paren o (args.flatMap Tree.toTokens) c])
    (by simp [toTokens_node, toTokens_group, toTokens_noAttrs, toTokens_absent, toTokens_word, Tree.list])
    (fun _ _ => ⟨rfl, rfl, rfl, fun _ => rfl⟩) (h.base.method h.shape.range hn hargs.readsAll) (isForm_node (by decide))
    rfl rfl rfl (by simp [Tree.kind?]) rfl (fun s hs => ?_) (fun _ => rfl) (by simp [Tree.kind?])
  have hgroup : Settled (.group .paren o [.list args] c) := settled_group (by simpa using settled_list hsettled)
  rw [tree_methodCall]
  dsimp only
  rw [h.leftGrouped hs _ _ rfl, hgroup, settled_noAttrs, settled_absent]

theorem Operand.field (h : Operand e n base) (hn : Ahead.keywords.contains member = false) {q : Pos} :
    Operand e true (.node .fieldExpr [.noAttrs, base, .leaf (.symbol "." dot), .leaf (.word member q)]) := by
  refine h.extend ((Tree.leaf (.symbol "." dot)).toTokens ++ [.ident member q])
    (by simp [toTokens_node, toTokens_noAttrs, toTokens_word])
    (fun _ _ => ⟨rfl, rfl, rfl, fun _ => rfl⟩) (h.base.field h.shape.range hn) (isForm_node (by decide))
    rfl rfl rfl (by simp [Tree.kind?]) rfl (fun s hs => ?_) (fun h => by cases h) (by simp [Tree.kind?])
  rw [tree_field]
  dsimp only
  rw [h.leftGrouped hs _ _ rfl, settled_noAttrs]

theorem Operand.index (h : Operand e n base) (hkey : Reads true key) (hsettled : Settled key) :
    Operand e false (.node .indexExpr [.noAttrs, base, .group .bracket o [key] c]) := by
  have hread : reach (.expr true) key.toTokens = .ok (key, []) := by simpa using hkey [] .nothing
  refine h.extend [.group .bracket o key.toTokens c] (by simp [toTokens_node, toTokens_group, toTokens_noAttrs])
    (fun _ _ => .group (by decide) ..) (h.base.index hread) (isForm_node (by decide))
    rfl rfl rfl (by simp [Tree.kind?]) rfl (fun s hs => ?_) (fun _ => rfl) (by simp [Tree.kind?])
  have hgroup : Settled (.group .bracket o [key] c) := settled_group (by simpa using hsettled)
  rw [tree_index]
  dsimp only
  rw [h.leftGrouped hs _ _ rfl, hgroup, settled_noAttrs]

theorem Operand.try_ (h : Operand e n base) : Operand e false (.node .tryExpr [.noAttrs, base, .leaf (.symbol "?" mark)]) := by
  refine h.extend (Tree.leaf (.symbol "?" mark)).toTokens (by simp [toTokens_node, toTokens_noAttrs])
    (fun _ _ => ⟨rfl, rfl, rfl, fun _ => rfl⟩) (h.base.try_ h.shape.range) (isForm_node (by decide))
    rfl rfl rfl (by simp [Tree.kind?]) rfl (fun s hs => ?_) (fun _ => rfl) (by simp [Tree.kind?])
  rw [tree_try]
  dsimp only
  rw [h.leftGrouped hs _ _ rfl, settled_noAttrs]

theorem Operand.await (h : Operand e n base) {q : Pos} :
    Operand e false (.node .awaitExpr [.noAttrs, base, .leaf (.symbol "." dot), .leaf (.word "await" q)]) := by
  refine h.extend ((Tree.leaf (.symbol "." dot)).toTokens ++ [.ident "await" q])
    (by simp [toTokens_node, toTokens_noAttrs, toTokens_word])
    (fun _ _ => ⟨rfl, rfl, rfl, fun _ => rfl⟩) (h.base.await h.shape.range) (isForm_node (by decide))
    rfl rfl rfl (by simp [Tree.kind?]) rfl (fun s hs => ?_) (fun _ => rfl) (by simp [Tree.kind?])
  rw [tree_await]
  dsimp only
  rw [h.leftGrouped hs _ _ rfl, settled_noAttrs]

theorem operand_literal (l : String) (p : Pos) : Operand true false (.node .litExpr [.noAttrs, .leaf (.literal l p)]) where
  base := base_literal l p
  shape := ⟨isForm_node (by decide), rfl, rfl, rfl, by simp [Tree.kind?], fun s _ => rfl, rfl,
    fun rest => ⟨⟨rfl, rfl, rfl, rfl, rfl⟩, rfl, rfl, rfl⟩⟩
  named _ := rfl
  early _ := ⟨fun rest _ => ⟨rfl, rfl, rfl, rfl, rfl, rfl⟩, by simp [Tree.kind?]⟩

theorem operand_paren (ht : Reads true t) (hne : t.toTokens ≠ []) (hsettled : Settled t) :
    Operand true false (.node .parenExpr [.noAttrs, .group .paren o [t] c]) where
  base := base_paren ht hne
  shape := ⟨isForm_node (by decide), rfl, rfl, rfl, by simp [Tree.kind?], fun s _ => by
      have hgroup : Settled (.group .paren o [t] c) := settled_group (by simpa using hsettled)
      exact grouped_node (by simp [partCount?]) (by simp [hgroup, settled_noAttrs]) s, rfl,
    fun rest => ⟨⟨rfl, rfl, rfl, rfl, rfl⟩, rfl, rfl, rfl⟩⟩
  named _ := rfl
  early _ := ⟨fun rest _ => ⟨rfl, rfl, rfl, rfl, rfl, rfl⟩, by simp [Tree.kind?]⟩

end

/-! ### Operators -/

section
variable {e e' : Bool} {left right inner : Tree} {op : String} {base : Precedence} {pos amp m : Pos}

theorem Shape.innerGrouped (h : Shape p inner) {s : Surroundings} (hs : s.optional = false) (htight : Precedence.prefixed.rank ≤ p.rank) :
    keepApart (Grouping.rightApart .least s .prefixed inner) s (fun s => Grouping.tree .least s inner) = inner := by
  rw [h.rightApart s (.inr ⟨rfl, htight⟩)]
  exact h.grouped s hs

theorem optional_rightOf (s : Surroundings) (p : Precedence) (fresh : Bool) : (s.rightOf p fresh false).optional = false :=
  Bool.and_false _

theorem Leading.unary (h : Leading e p inner) (hop : op ∈ ["*", "!", "-"]) :
    Leading true .prefixed (.node .unaryExpr [.noAttrs, .leaf (.symbol op pos), inner]) := by
  have htokens (rest : List TokenTree) : (Tree.node .unaryExpr [.noAttrs, .leaf (.symbol op pos), inner]).toTokens ++ rest =
      (Tree.leaf (.symbol op pos)).toTokens ++ (inner.toTokens ++ rest) := by
    simp [toTokens_node, toTokens_noAttrs]
  refine ⟨⟨fun structs rest hrest => ?_, isForm_node (by decide), by simp [Tree.kind?], rfl⟩,
    ⟨isForm_node (by decide), rfl, rfl, rfl, by simp [Tree.kind?], fun s _ => ?_, rfl, fun rest => ?_⟩, Nat.le_refl _,
    fun _ => ⟨fun rest _ => ?_, by simp [Tree.kind?]⟩⟩
  · rw [htokens]
    exact unary_operator hop (h.lead.reads structs rest hrest)
  · rw [tree_unary]
    dsimp only
    rw [h.shape.innerGrouped (optional_rightOf s _ _) h.tight, settled_noAttrs]
  all_goals
    rw [htokens]
    simp only [List.mem_cons, List.not_mem_nil, or_false] at hop
  · rcases hop with rfl | rfl | rfl <;> exact ⟨⟨rfl, rfl, rfl, rfl, rfl⟩, rfl, rfl, rfl⟩
  · rcases hop with rfl | rfl | rfl <;> exact ⟨rfl, rfl, rfl, rfl, rfl, rfl⟩

theorem Leading.reference (h : Leading e p inner) :
    Leading true .prefixed (.node .referenceExpr [.noAttrs, .leaf (.symbol "&" amp), .absent, inner]) := by
  have htokens (rest : List TokenTree) : (Tree.node .referenceExpr [.noAttrs, .leaf (.symbol "&" amp), .absent, inner]).toTokens ++ rest =
      (Tree.leaf (.symbol "&" amp)).toTokens ++ (inner.toTokens ++ rest) := by
    simp [toTokens_node, toTokens_noAttrs, toTokens_absent]
  refine ⟨⟨fun structs rest hrest => ?_, isForm_node (by decide), by simp [Tree.kind?], rfl⟩,
    ⟨isForm_node (by decide), rfl, rfl, rfl, by simp [Tree.kind?], fun s _ => ?_, rfl, fun rest => ?_⟩, Nat.le_refl _,
    fun _ => ⟨fun rest _ => ?_, by simp [Tree.kind?]⟩⟩
  · rw [htokens]
    have hfront := h.shape.front rest
    exact unary_reference hfront.raw hfront.mutable (h.lead.reads structs rest hrest)
  · rw [tree_reference]
    dsimp only
    rw [h.shape.innerGrouped (optional_rightOf s _ _) h.tight, settled_noAttrs]
  all_goals rw [htokens]
  · exact ⟨⟨rfl, rfl, rfl, rfl, rfl⟩, rfl, rfl, rfl⟩
  · exact ⟨rfl, rfl, rfl, rfl, rfl, rfl⟩

theorem Leading.mutable (h : Leading e p inner) :
    Leading true .prefixed (.node .referenceExpr [.noAttrs, .leaf (.symbol "&" amp), .leaf (.word "mut" m), inner]) := by
  have htokens (rest : List TokenTree) :
      (Tree.node .referenceExpr [.noAttrs, .leaf (.symbol "&" amp), .leaf (.word "mut" m), inner]).toTokens ++ rest =
        (Tree.leaf (.symbol "&" amp)).toTokens ++ .ident "mut" m :: (inner.toTokens ++ rest) := by
    simp [toTokens_node, toTokens_noAttrs, toTokens_word]
  refine ⟨⟨fun structs rest hrest => ?_, isForm_node (by decide), by simp [Tree.kind?], rfl⟩,
    ⟨isForm_node (by decide), rfl, rfl, rfl, by simp [Tree.kind?], fun s _ => ?_, rfl, fun rest => ?_⟩, Nat.le_refl _,
    fun _ => ⟨fun rest _ => ?_, by simp [Tree.kind?]⟩⟩
  · rw [htokens]
    exact unary_mutable (h.lead.reads structs rest hrest)
  · rw [tree_reference]
    dsimp only
    rw [h.shape.innerGrouped (optional_rightOf s _ _) h.tight, settled_noAttrs]
  all_goals rw [htokens]
  · exact ⟨⟨rfl, rfl, rfl, rfl, rfl⟩, rfl, rfl, rfl⟩
  · exact ⟨rfl, rfl, rfl, rfl, rfl, rfl⟩

theorem operatorPrecedence_of_mem (hop : (op, base) ∈ binaryOperators) (pos : Pos) :
    operatorPrecedence (.leaf (.symbol op pos)) = base := by
  have hall : ∀ o ∈ binaryOperators, ((binaryOperators.find? (·.1 == o.1)).map (·.2)).getD .jump = o.2 := by decide
  exact hall _ hop

theorem Chained.binary (hleft : Chained e p left) (hright : Chained e' q right) (hop : (op, base) ∈ binaryOperators)
    (hp : base.rank ≤ p.rank) (hcompare : base = .compare → base.rank < p.rank) (hq : base.rank < q.rank)
    (hassign : base ≠ .assign) : Chained e base (.node .binaryExpr [.noAttrs, left, .leaf (.symbol op pos), right]) := by
  have htokens (rest : List TokenTree) : (Tree.node .binaryExpr [.noAttrs, left, .leaf (.symbol op pos), right]).toTokens ++ rest =
      left.toTokens ++ (operatorTokens pos op.toList ++ (right.toTokens ++ rest)) := by
    simp [toTokens_node, toTokens_noAttrs, toTokens_symbol]
  have htight : Precedence.range.rank < base.rank := by
    have hall : ∀ o ∈ binaryOperators, o.2 ≠ .assign → Precedence.range.rank < o.2.rank := by decide
    exact hall _ hop hassign
  have hnatural := operatorPrecedence_of_mem hop pos
  refine ⟨hleft.chain.binary hright.chain hop hp hcompare hq hassign,
    ⟨isForm_node (by decide), hnatural, rfl, rfl, by simp [Tree.kind?], fun s hs => ?_, ?_, fun rest => ?_⟩, htight,
    fun he => ⟨fun rest _ => ?_, by simp [Tree.kind?]⟩⟩
  · have hl : Grouping.leftApart .least (s.leftOf base (mayBeginExpr (.leaf (.symbol op pos)))) base left = false :=
      hleft.shape.leftApart _ hp (fun h => h.elim hcompare fun h => by rw [h] at htight; exact absurd htight (by decide))
        fun h => absurd h hassign
    have hr := hright.shape.rightApart (s.rightOf base false false) (.inl hq)
    rw [tree_binary]
    dsimp only
    rw [hnatural, hl, hr, settled_noAttrs]
    exact congrArg₂ (fun l r => Tree.node .binaryExpr [.noAttrs, l, .leaf (.symbol op pos), r]) (hleft.shape.grouped _ hs)
      (hright.shape.grouped _ (optional_rightOf s _ _))
  · rw [attrsToFirst, hleft.shape.first]
  · rw [htokens]
    exact hleft.shape.front _
  · rw [htokens]
    exact (hleft.early he).opens _ (calm_operator pos _ _ hop).toAfter

/-! ### Whole expressions -/

theorem Chained.assign (hleft : Chained e p left) (hright : Chained e' q right) :
    Valued e (.node .assignExpr [.noAttrs, left, .leaf (.symbol "=" pos), right]) := by
  have htokens (rest : List TokenTree) : (Tree.node .assignExpr [.noAttrs, left, .leaf (.symbol "=" pos), right]).toTokens ++ rest =
      left.toTokens ++ (.punct '=' false pos :: (right.toTokens ++ rest)) := by
    simp [toTokens_node, toTokens_noAttrs, toTokens_symbol, operatorTokens]
  refine ⟨hleft.chain.assign hright.chain (Nat.lt_of_le_of_lt (by decide) hright.tight), by simp [Tree.kind?], fun s hs _ => ?_, ?_,
    fun rest => ?_, fun he => ⟨fun rest _ => ?_, by simp [Tree.kind?]⟩⟩
  · have hl : Grouping.leftApart .least (s.leftOf .assign false) .assign left = false :=
      hleft.shape.leftApart _ (Nat.le_of_lt (Nat.lt_of_le_of_lt (by decide) hleft.tight)) (by simp) fun _ => hleft.tight
    rw [tree_assign]
    dsimp only
    rw [hl, settled_noAttrs, hright.shape.grouped _ (optional_rightOf s _ _)]
    exact congrArg (fun l => Tree.node .assignExpr [.noAttrs, l, .leaf (.symbol "=" pos), right]) (hleft.shape.grouped _ hs)
  · rw [attrsToFirst, hleft.shape.first]
  · rw [htokens]
    exact hleft.shape.front _
  · rw [htokens]
    exact (hleft.early he).opens _ ⟨rfl, rfl, rfl, fun _ => rfl⟩

theorem Chained.update (hleft : Chained e p left) (hright : Chained e' q right) (hop : (op, .assign) ∈ binaryOperators) :
    Valued e (.node .binaryExpr [.noAttrs, left, .leaf (.symbol op pos), right]) := by
  have htokens (rest : List TokenTree) : (Tree.node .binaryExpr [.noAttrs, left, .leaf (.symbol op pos), right]).toTokens ++ rest =
      left.toTokens ++ (operatorTokens pos op.toList ++ (right.toTokens ++ rest)) := by
    simp [toTokens_node, toTokens_noAttrs, toTokens_symbol]
  refine ⟨hleft.chain.update hright.chain hop (Nat.lt_of_le_of_lt (by decide) hright.tight), by simp [Tree.kind?], fun s hs _ => ?_, ?_,
    fun rest => ?_, fun he => ⟨fun rest _ => ?_, by simp [Tree.kind?]⟩⟩
  · have hl : Grouping.leftApart .least (s.leftOf .assign (mayBeginExpr (.leaf (.symbol op pos)))) .assign left = false :=
      hleft.shape.leftApart _ (Nat.le_of_lt (Nat.lt_of_le_of_lt (by decide) hleft.tight)) (by simp) fun _ => hleft.tight
    rw [tree_binary]
    dsimp only
    rw [operatorPrecedence_of_mem hop pos, hl, settled_noAttrs]
    exact congrArg₂ (fun l r => Tree.node .binaryExpr [.noAttrs, l, .leaf (.symbol op pos), r]) (hleft.shape.grouped _ hs)
      (hright.shape.grouped _ (optional_rightOf s _ _))
  · rw [attrsToFirst, hleft.shape.first]
  · rw [htokens]
    exact hleft.shape.front _
  · rw [htokens]
    exact (hleft.early he).opens _ (calm_operator pos _ _ hop).toAfter

end

end CallProbe.Source.Parse
