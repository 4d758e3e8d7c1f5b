import CallProbe.Proofs.Reading.Operands

/-! # Chains of operators

The printed text of binary operators is read back by climbing. A chain is a first operand and steps to the right, none of
which binds more tightly than the one before it: the reader takes one step after the other (`climb_steps`), and where the
chain stands behind an operator that binds more loosely, all of them (`operand_steps`). -/

namespace CallProbe.Source.Parse

open Grammar

variable {structs : Bool} {rest : List TokenTree} {first left right : Tree} {base after p : Precedence} {op : String} {pos : Pos}

/-! ### Operators ahead -/

theorem operatorAhead_tokens (pos : Pos) (ts : List TokenTree) :
    ∀ op ∈ binaryOperators, operatorAhead (operatorTokens pos op.1.toList ++ ts) = some op := by
  simp only [binaryOperators, List.forall_mem_cons, List.not_mem_nil, false_imp_iff, implies_true, and_true]
  and_intros
  all_goals rfl

theorem precedenceAhead_tokens (h : (op, p) ∈ binaryOperators) (pos : Pos) (ts : List TokenTree) :
    precedenceAhead (operatorTokens pos op.toList ++ ts) = p := by
  rw [precedenceAhead, operatorAhead_tokens pos ts (op, p) h]

/-- An operator that binds more loosely than asked for is left. -/
theorem climb_low (hrest : Stops structs rest) (h : (precedenceAhead rest).rank < base.rank) :
    reach (.climb left structs base) rest = .ok (left, rest) := by
  cases hrest with
  | ends hends => exact climb_ends hends
  | operator hop pos ts =>
    rw [precedenceAhead_tokens hop] at h
    rw [reach_eq]
    change climb reach left structs base _ = _
    rw [climb, bind_get]
    split
    · rfl
    · rw [operatorAhead_tokens pos ts _ hop]
      dsimp only
      rw [if_pos h]
      rfl
  | assign pos ts =>
    have hlow : (decide (base.rank ≤ Precedence.assign.rank)) = false := by
      have hnext : precedenceAhead (.punct '=' false pos :: ts) = .assign := rfl
      rw [hnext] at h
      simpa using h
    rw [reach_eq]
    change climb reach left structs base _ = _
    rw [climb, bind_get]
    split
    · rfl
    · have hop : operatorAhead (.punct '=' false pos :: ts) = none := rfl
      have hdots : Ahead.symbol ".." (.punct '=' false pos :: ts) = false := rfl
      have has : Ahead.word "as" (.punct '=' false pos :: ts) = false := rfl
      rw [hop]
      dsimp only
      rw [hlow, if_neg (by simp), if_neg (by simp [hdots]), if_neg (by simp [has])]
      rfl

/-! ### Steps -/

/-- An operator with its right operand. -/
structure Step where
  op : String
  prec : Precedence
  pos : Pos
  right : Tree

namespace Step

def apply (left : Tree) (s : Step) : Tree := .node .binaryExpr [.noAttrs, left, .leaf (.symbol s.op s.pos), s.right]

def tokens (s : Step) : List TokenTree := operatorTokens s.pos s.op.toList ++ s.right.toTokens

/-- The right operand can be read behind the operator, up to an operator that binds no more tightly. -/
structure Reads (s : Step) : Prop where
  op : (s.op, s.prec) ∈ binaryOperators
  right : ∀ structs rest, Stops structs rest → (precedenceAhead rest).rank ≤ s.prec.rank →
    reach (.operand structs s.prec) (s.right.toTokens ++ rest) = .ok (s.right, rest)

/-- One step may come after another: it binds no more tightly, and comparisons are not chained. -/
def Follows (s t : Step) : Prop := t.prec.rank ≤ s.prec.rank ∧ (s.prec = .compare → t.prec ≠ .compare)

theorem Reads.ne_nil {s : Step} (h : s.Reads) : s.op.toList ≠ [] := by
  have hall : ∀ o ∈ binaryOperators, o.1.toList ≠ [] := by decide
  exact hall _ h.op

end Step

/-- Tokens that come behind a chain whose last operator is the given one. -/
structure Behind (structs : Bool) (p : Precedence) (rest : List TokenTree) : Prop where
  stops : Stops structs rest
  low : (precedenceAhead rest).rank ≤ p.rank

/-- Steps that can be taken one after the other. -/
structure Steps (steps : List Step) : Prop where
  reads : ∀ s ∈ steps, s.Reads
  falls : steps.Pairwise Step.Follows

theorem Steps.tail {s : Step} {steps : List Step} (h : Steps (s :: steps)) : Steps steps :=
  ⟨fun t ht => h.reads t (List.mem_cons_of_mem _ ht), (List.pairwise_cons.mp h.falls).2⟩

theorem Steps.length_le {steps : List Step} (h : Steps steps) : steps.length ≤ (steps.flatMap Step.tokens).length := by
  induction steps with
  | nil => exact Nat.le_refl _
  | cons s steps ih =>
    have hop : 0 < s.tokens.length := by
      rw [Step.tokens, List.length_append, length_operatorTokens]
      exact Nat.add_pos_left (List.length_pos_iff.mpr (h.reads s (by simp)).ne_nil) _
    have := ih h.tail
    rw [List.flatMap_cons, List.length_append, List.length_cons]
    omega

theorem Steps.stops {steps : List Step} (h : Steps steps) (hrest : Stops structs rest) :
    Stops structs (steps.flatMap Step.tokens ++ rest) := by
  cases steps with
  | nil => exact hrest
  | cons s steps =>
    rw [List.flatMap_cons, Step.tokens, List.append_assoc, List.append_assoc]
    exact .operator (h.reads s (by simp)).op s.pos _

theorem Steps.low {s : Step} {steps : List Step} (h : Steps (s :: steps)) (hrest : (precedenceAhead rest).rank ≤ s.prec.rank) :
    (precedenceAhead (steps.flatMap Step.tokens ++ rest)).rank ≤ s.prec.rank := by
  cases steps with
  | nil => exact hrest
  | cons t steps =>
    rw [List.flatMap_cons, Step.tokens, List.append_assoc, List.append_assoc, precedenceAhead_tokens (h.reads t (by simp)).op]
    exact ((List.pairwise_cons.mp h.falls).1 t (by simp)).1

theorem isComparison_iff (h : (op, p) ∈ binaryOperators) :
    isComparison (.node .binaryExpr [.noAttrs, left, .leaf (.symbol op pos), right]) = true ↔ p = .compare := by
  have hall : ∀ o ∈ binaryOperators, (["==", "!=", "<", ">", "<=", ">="].contains o.1 = true ↔ o.2 = .compare) := by decide
  exact hall (op, p) h

/-- One step is taken. -/
theorem climb_step {s : Step} (hs : s.Reads) (hbase : base.rank ≤ s.prec.rank) (hrange : left.kind? ≠ some .rangeExpr)
    (hchain : s.prec = .compare → isComparison left = false) (hrest : Stops structs rest)
    (hlow : (precedenceAhead rest).rank ≤ s.prec.rank) :
    reach (.climb left structs base) (s.tokens ++ rest) = reach (.climb (s.apply left) structs base) rest := by
  have hop : operatorAhead (operatorTokens s.pos s.op.toList ++ (s.right.toTokens ++ rest)) = some (s.op, s.prec) :=
    operatorAhead_tokens s.pos (s.right.toTokens ++ rest) (s.op, s.prec) hs.op
  rw [← toTokens_symbol] at hop
  rw [Step.tokens, List.append_assoc, ← toTokens_symbol]
  conv => lhs; rw [reach_eq]
  change climb reach left structs base _ = _
  rw [climb, bind_get, if_neg (by simpa using hrange), hop]
  dsimp only
  rw [if_neg (by omega), if_neg (by simpa using hchain), bind_of_ok (symbol_ok hs.ne_nil s.pos _),
    bind_of_ok (hs.right structs rest hrest hlow), Step.apply]

/-- Steps that bind tightly enough are taken one after the other. -/
theorem climb_steps {steps : List Step} (h : Steps steps) (hbase : ∀ s ∈ steps, base.rank ≤ s.prec.rank)
    (hrange : left.kind? ≠ some .rangeExpr) (hchain : ∀ s ∈ steps, s.prec = .compare → isComparison left = false)
    (hrest : Stops structs rest) (hlow : ∀ s ∈ steps, (precedenceAhead rest).rank ≤ s.prec.rank) :
    reach (.climb left structs base) (steps.flatMap Step.tokens ++ rest) =
      reach (.climb (steps.foldl Step.apply left) structs base) rest := by
  induction steps generalizing left with
  | nil => rfl
  | cons s steps ih =>
    have hs := h.reads s (by simp)
    rw [List.flatMap_cons, List.append_assoc, climb_step hs (hbase s (by simp)) hrange (hchain s (by simp)) (h.tail.stops hrest)
      (h.low (hlow s (by simp))), List.foldl_cons]
    refine ih h.tail (fun t ht => hbase t (by simp [ht])) (by simp [Step.apply, Tree.kind?]) ?_ fun t ht => hlow t (by simp [ht])
    intro t ht hcompare
    have hfollows := (List.pairwise_cons.mp h.falls).1 t ht
    cases hleft : isComparison (s.apply left) with
    | false => rfl
    | true => exact absurd hcompare (hfollows.2 ((isComparison_iff hs.op).mp hleft))

theorem kind?_foldl {steps : List Step} (h : left.kind? ≠ some .rangeExpr) :
    (steps.foldl Step.apply left).kind? ≠ some .rangeExpr := by
  rcases List.eq_nil_or_concat steps with rfl | ⟨front, s, rfl⟩
  · exact h
  · simp [Step.apply, Tree.kind?]

/-- A chain is a comparison if its last step is. -/
theorem exists_of_isComparison {steps : List Step} (hne : steps ≠ []) (hreads : ∀ s ∈ steps, s.Reads)
    (h : isComparison (steps.foldl Step.apply left) = true) : ∃ s ∈ steps, s.prec = .compare := by
  rcases List.eq_nil_or_concat steps with rfl | ⟨front, s, rfl⟩
  · exact absurd rfl hne
  · rw [List.concat_eq_append, List.foldl_append, List.foldl_cons, List.foldl_nil, Step.apply] at h
    exact ⟨s, by simp, (isComparison_iff (hreads s (by simp)).op).mp h⟩

theorem Steps.sublist {steps part : List Step} (h : Steps steps) (hsub : List.Sublist part steps) : Steps part :=
  ⟨fun s hs => h.reads s (hsub.subset hs), h.falls.sublist hsub⟩

/-- Behind an operator that binds more loosely, all steps are taken: those that bind as tightly as the first one at once,
    then the others. -/
theorem operand_steps {steps : List Step} (h : Steps steps) {fuel : Nat} (hfuel : steps.length < fuel)
    (hafter : ∀ s ∈ steps, after.rank < s.prec.rank) (hassign : ¬(precedenceAhead rest = .assign ∧ after = .assign)) (hrange : left.kind? ≠ some .rangeExpr)
    (hchain : ∀ s ∈ steps, s.prec = .compare → isComparison left = false) (hrest : Stops structs rest)
    (hlow : (precedenceAhead rest).rank ≤ after.rank) :
    operandFuel reach structs after fuel left (steps.flatMap Step.tokens ++ rest) = .ok (steps.foldl Step.apply left, rest) := by
  induction hlength : steps.length using Nat.strongRecOn generalizing steps left fuel with
  | ind n ih =>
  obtain ⟨fuel, rfl⟩ := Nat.exists_eq_succ_of_ne_zero (Nat.ne_zero_of_lt hfuel)
  cases steps with
  | nil =>
    have hdone : ¬(decide (after.rank < (precedenceAhead rest).rank) ||
        precedenceAhead rest == .assign && after == .assign) = true := by
      rw [Bool.or_eq_true, Bool.and_eq_true, beq_iff_eq, beq_iff_eq, decide_eq_true_iff]
      exact not_or.mpr ⟨Nat.not_lt.mpr hlow, hassign⟩
    rw [List.flatMap_nil, List.nil_append, operandFuel, bind_get, if_neg hdone]
    rfl
  | cons s steps =>
    have hs := h.reads s (by simp)
    let run := steps.takeWhile fun t => decide (s.prec.rank ≤ t.prec.rank)
    let more := steps.dropWhile fun t => decide (s.prec.rank ≤ t.prec.rank)
    have hsplit : run ++ more = steps := List.takeWhile_append_dropWhile
    have hmoreSteps : Steps more := h.tail.sublist (List.dropWhile_sublist _)
    have htokens : (s :: steps).flatMap Step.tokens ++ rest =
        (s :: run).flatMap Step.tokens ++ (more.flatMap Step.tokens ++ rest) := by
      rw [← hsplit, ← List.cons_append, List.flatMap_append, List.append_assoc]
    have hnext : precedenceAhead ((s :: steps).flatMap Step.tokens ++ rest) = s.prec := by
      rw [List.flatMap_cons, Step.tokens, List.append_assoc, List.append_assoc, precedenceAhead_tokens hs.op]
    -- What comes after the steps that are taken at once binds more loosely than they do.
    have hbelow : (precedenceAhead (more.flatMap Step.tokens ++ rest)).rank < s.prec.rank := by
      have hs' := hafter s (by simp)
      cases hmore : more with
      | nil =>
        rw [List.flatMap_nil, List.nil_append]
        omega
      | cons t ts =>
        have ht := hmoreSteps.reads t (by simp [hmore])
        have hstop := List.head?_dropWhile_not (fun t : Step => decide (s.prec.rank ≤ t.prec.rank)) steps
        rw [show steps.dropWhile (fun t : Step => decide (s.prec.rank ≤ t.prec.rank)) = t :: ts from hmore] at hstop
        rw [List.flatMap_cons, Step.tokens, List.append_assoc, List.append_assoc, precedenceAhead_tokens ht.op]
        simpa using hstop
    have hrunBase : ∀ t ∈ s :: run, s.prec.rank ≤ t.prec.rank := by
      intro t ht
      rcases List.mem_cons.mp ht with rfl | ht
      · exact Nat.le_refl _
      · simpa using List.all_eq_true.mp (List.all_takeWhile ..) t ht
    have hrunSteps : Steps (s :: run) := h.sublist (List.Sublist.cons_cons s (List.takeWhile_sublist _))
    have hclimb : reach (.climb left structs s.prec) ((s :: steps).flatMap Step.tokens ++ rest) =
        .ok ((s :: run).foldl Step.apply left, more.flatMap Step.tokens ++ rest) := by
      rw [htokens, climb_steps hrunSteps hrunBase hrange ?_ (hmoreSteps.stops hrest) ?_]
      · exact climb_low (hmoreSteps.stops hrest) hbelow
      · intro t ht
        exact hchain t (List.cons_subset_cons s (List.takeWhile_subset _) ht)
      · intro t ht
        have := hrunBase t ht
        omega
    have hshorter : (more.flatMap Step.tokens ++ rest).length ≠ ((s :: steps).flatMap Step.tokens ++ rest).length := by
      have hop : 0 < s.tokens.length := by
        rw [Step.tokens, List.length_append, length_operatorTokens]
        exact Nat.add_pos_left (List.length_pos_iff.mpr hs.ne_nil) _
      rw [htokens]
      simp only [List.flatMap_cons, List.length_append]
      omega
    have hgo : (decide (after.rank < s.prec.rank) || s.prec == .assign && after == .assign) = true := by
      simp [hafter s (by simp)]
    rw [operandFuel, bind_get, hnext, if_pos hgo, bind_of_ok hclimb, bind_get, if_neg (by simpa using hshorter)]
    have hfold : (s :: steps).foldl Step.apply left = more.foldl Step.apply ((s :: run).foldl Step.apply left) := by
      rw [← List.foldl_append, List.cons_append, hsplit]
    have hmoreLength : more.length ≤ steps.length := (List.dropWhile_sublist _).length_le
    have hmoreAfter : ∀ t ∈ more, after.rank < t.prec.rank := fun t ht =>
      hafter t (List.mem_cons_of_mem s (List.dropWhile_subset _ ht))
    have hmoreChain : ∀ t ∈ more, t.prec = .compare → isComparison ((s :: run).foldl Step.apply left) = false := by
      intro t ht hcompare
      cases hfold : isComparison ((s :: run).foldl Step.apply left) with
      | false => rfl
      | true =>
        obtain ⟨u, hu, hucompare⟩ := exists_of_isComparison (List.cons_ne_nil s run) hrunSteps.reads hfold
        have hpair : ((s :: run) ++ more).Pairwise Step.Follows := by
          rw [List.cons_append, hsplit]
          exact h.falls
        exact absurd hcompare (((List.pairwise_append.mp hpair).2.2 u hu t ht).2 hucompare)
    have hfuelMore : more.length < fuel := by
      simp at hfuel
      omega
    rw [hfold]
    exact ih more.length (by simp at hlength; omega) hmoreSteps hfuelMore hmoreAfter (kind?_foldl hrange) hmoreChain rfl

/-! ### Chains -/

/-- A first operand, with operators in front of it or not. -/
structure First (t : Tree) : Prop where
  reads : ∀ structs rest, Stops structs rest → reach (.unary structs) (t.toTokens ++ rest) = .ok (t, rest)
  form : IsForm t
  range : t.kind? ≠ some .rangeExpr
  comparison : isComparison t = false

/-- A chain of operators that bind at least as tightly as the given precedence. -/
def Chain (p : Precedence) (t : Tree) : Prop := ∃ first steps, t = steps.foldl Step.apply first ∧ First first ∧ Steps steps ∧
  ∀ s ∈ steps, p.rank ≤ s.prec.rank ∧ s.prec ≠ .assign

variable {t : Tree}

theorem toTokens_foldl (first : Tree) (steps : List Step) :
    (steps.foldl Step.apply first).toTokens = first.toTokens ++ steps.flatMap Step.tokens := by
  induction steps generalizing first with
  | nil => simp
  | cons s steps ih =>
    rw [List.foldl_cons, ih, List.flatMap_cons, ← List.append_assoc]
    simp [Step.apply, Step.tokens, toTokens_node, toTokens_noAttrs, toTokens_symbol]

theorem First.chain (h : First t) (p : Precedence) : Chain p t := ⟨t, [], rfl, h, ⟨by simp, .nil⟩, by simp⟩

/-- A chain is read behind an operator that binds more loosely than all of its own. -/
theorem Chain.operand (h : Chain p t) (hafter : after.rank < p.rank) (hrest : Stops structs rest)
    (hlow : (precedenceAhead rest).rank ≤ after.rank) (hassign : ¬(precedenceAhead rest = .assign ∧ after = .assign)) :
    reach (.operand structs after) (t.toTokens ++ rest) = .ok (t, rest) := by
  obtain ⟨first, steps, rfl, hfirst, hsteps, htight⟩ := h
  have htokens : (steps.foldl Step.apply first).toTokens ++ rest = first.toTokens ++ (steps.flatMap Step.tokens ++ rest) := by
    rw [toTokens_foldl, List.append_assoc]
  have hlength : steps.length ≤ (steps.flatMap Step.tokens ++ rest).length := by
    rw [List.length_append]
    exact Nat.le_add_right_of_le hsteps.length_le
  rw [htokens, reach_eq]
  change operand reach structs after _ = _
  rw [Parse.operand, bind_of_ok (hfirst.reads structs _ (hsteps.stops hrest)), bind_get]
  refine operand_steps hsteps (Nat.lt_succ_of_le hlength) (fun s hs => ?_) hassign hfirst.range
    (fun _ _ _ => hfirst.comparison) hrest hlow
  have := (htight s hs).1
  omega

/-- A chain goes on with an operator that binds no more tightly than its own. -/
theorem Chain.binary {q : Precedence} (hleft : Chain p left) (hright : Chain q right) (hop : (op, base) ∈ binaryOperators)
    (hp : base.rank ≤ p.rank) (hcompare : base = .compare → base.rank < p.rank) (hq : base.rank < q.rank)
    (hassign : base ≠ .assign) : Chain base (.node .binaryExpr [.noAttrs, left, .leaf (.symbol op pos), right]) := by
  obtain ⟨first, steps, rfl, hfirst, hsteps, htight⟩ := hleft
  let s : Step := ⟨op, base, pos, right⟩
  have hs : s.Reads := ⟨hop, fun structs rest hrest hlow => hright.operand hq hrest hlow fun h => hassign h.2⟩
  have hfollows : ∀ t ∈ steps, t.Follows s := by
    intro t ht
    have htight := (htight t ht).1
    refine ⟨by change base.rank ≤ _; omega, fun htcompare hbase => ?_⟩
    have hlt := hcompare hbase
    rw [htcompare, ← show base = .compare from hbase] at htight
    omega
  refine ⟨first, steps ++ [s], by rw [List.foldl_append]; rfl, hfirst, ⟨?_, ?_⟩, ?_⟩
  · intro t ht
    rcases List.mem_append.mp ht with ht | ht
    · exact hsteps.reads t ht
    · exact List.mem_singleton.mp ht ▸ hs
  · exact List.pairwise_append.mpr ⟨hsteps.falls, List.pairwise_singleton _ _, fun t ht u hu =>
      List.mem_singleton.mp hu ▸ hfollows t ht⟩
  · intro t ht
    rcases List.mem_append.mp ht with ht | ht
    · exact ⟨(hfollows t ht).1, (htight t ht).2⟩
    · rw [List.mem_singleton.mp ht]
      exact ⟨Nat.le_refl _, hassign⟩

/-! ### Whole expressions -/

/-- An expression that reads where it ends: a first operand, and what is climbed from there. -/
def Value (structs : Bool) (t : Tree) : Prop := ∀ rest, Ends structs rest → ∃ first mid,
  reach (.unary structs) (t.toTokens ++ rest) = .ok (first, mid) ∧ IsForm first ∧
    reach (.climb first structs .jump) mid = .ok (t, rest)

theorem Value.reads (h : Value structs t) : Reads structs t := by
  intro rest hrest
  obtain ⟨first, mid, hfirst, -, hclimb⟩ := h rest hrest
  rw [expr_eq, bind_of_ok hfirst, hclimb]

theorem precedenceAhead_ends (h : Ends structs rest) : precedenceAhead rest = .jump := by
  cases h <;> rfl

theorem Step.Reads.rank_pos {s : Step} (h : s.Reads) : Precedence.assign.rank ≤ s.prec.rank := by
  have hall : ∀ o ∈ binaryOperators, Precedence.assign.rank ≤ o.2.rank := by decide
  exact hall _ h.op

/-- Up to an assignment a chain is climbed as a whole. -/
theorem Chain.climbs (h : Chain p t) (hrest : Stops structs rest) (hlow : (precedenceAhead rest).rank ≤ Precedence.assign.rank) :
    ∃ first mid, reach (.unary structs) (t.toTokens ++ rest) = .ok (first, mid) ∧ IsForm first ∧
      reach (.climb first structs .jump) mid = reach (.climb t structs .jump) rest := by
  obtain ⟨first, steps, rfl, hfirst, hsteps, htight⟩ := h
  refine ⟨first, steps.flatMap Step.tokens ++ rest, ?_, hfirst.form, ?_⟩
  · rw [toTokens_foldl, List.append_assoc]
    exact hfirst.reads structs _ (hsteps.stops hrest)
  · exact climb_steps hsteps (fun _ _ => Nat.zero_le _) hfirst.range (fun _ _ _ => hfirst.comparison) hrest
      fun s hs => Nat.le_trans hlow (hsteps.reads s hs).rank_pos

theorem Chain.value (h : Chain p t) (structs : Bool) : Value structs t := by
  intro rest hrest
  obtain ⟨first, mid, hfirst, hform, hclimb⟩ := h.climbs (.ends hrest) (by rw [precedenceAhead_ends hrest]; exact Nat.zero_le _)
  exact ⟨first, mid, hfirst, hform, by rw [hclimb, climb_ends hrest]⟩

theorem Chain.kind?_ne (h : Chain p t) : t.kind? ≠ some .rangeExpr := by
  obtain ⟨first, steps, rfl, hfirst, -⟩ := h
  exact kind?_foldl hfirst.range

/-- An assignment of a chain to a chain. -/
theorem Chain.assign {q : Precedence} (hleft : Chain p left) (hright : Chain q right) (hq : Precedence.assign.rank < q.rank) :
    Value structs (.node .assignExpr [.noAttrs, left, .leaf (.symbol "=" pos), right]) := by
  intro rest hrest
  have htokens : (Tree.node .assignExpr [.noAttrs, left, .leaf (.symbol "=" pos), right]).toTokens ++ rest =
      left.toTokens ++ .punct '=' false pos :: (right.toTokens ++ rest) := by
    simp [toTokens_node, toTokens_noAttrs, toTokens_symbol, operatorTokens]
  have hends := precedenceAhead_ends hrest
  have hoperand : reach (.operand structs .assign) (right.toTokens ++ rest) = .ok (right, rest) :=
    hright.operand hq (.ends hrest) (by rw [hends]; exact Nat.zero_le _) (by simp [hends])
  obtain ⟨first, mid, hfirst, hform, hclimb⟩ := hleft.climbs (.assign pos (right.toTokens ++ rest)) (Nat.le_refl _)
  refine ⟨first, mid, htokens ▸ hfirst, hform, ?_⟩
  have hop : operatorAhead (.punct '=' false pos :: (right.toTokens ++ rest)) = none := rfl
  have hassign : assignAhead (.punct '=' false pos :: (right.toTokens ++ rest)) = true := rfl
  rw [hclimb]
  conv => lhs; rw [reach_eq]
  change climb reach left structs .jump _ = _
  rw [climb, bind_get, if_neg (by simpa using hleft.kind?_ne), hop]
  dsimp only
  have hsymbol : symbol "=" (.punct '=' false pos :: (right.toTokens ++ rest)) =
      .ok (.leaf (.symbol "=" pos), right.toTokens ++ rest) := symbol_ok (by decide) pos _
  rw [if_pos (by rw [hassign]; rfl), bind_of_ok hsymbol, bind_of_ok hoperand, climb_ends hrest]

/-- An operation on a chain in its place. -/
theorem Chain.update {q : Precedence} (hleft : Chain p left) (hright : Chain q right) (hop : (op, .assign) ∈ binaryOperators)
    (hq : Precedence.assign.rank < q.rank) : Value structs (.node .binaryExpr [.noAttrs, left, .leaf (.symbol op pos), right]) := by
  intro rest hrest
  have htokens : (Tree.node .binaryExpr [.noAttrs, left, .leaf (.symbol op pos), right]).toTokens ++ rest =
      left.toTokens ++ (operatorTokens pos op.toList ++ (right.toTokens ++ rest)) := by
    simp [toTokens_node, toTokens_noAttrs, toTokens_symbol]
  have hends := precedenceAhead_ends hrest
  have hoperand : reach (.operand structs .assign) (right.toTokens ++ rest) = .ok (right, rest) :=
    hright.operand hq (.ends hrest) (by rw [hends]; exact Nat.zero_le _) (by simp [hends])
  have hahead := operatorAhead_tokens pos (right.toTokens ++ rest) (op, .assign) hop
  have hne : op.toList ≠ [] := by
    have hall : ∀ o ∈ binaryOperators, o.1.toList ≠ [] := by decide
    exact hall _ hop
  obtain ⟨first, mid, hfirst, hform, hclimb⟩ := hleft.climbs (.operator hop pos (right.toTokens ++ rest))
    (Nat.le_of_eq (by rw [precedenceAhead_tokens hop]))
  refine ⟨first, mid, htokens ▸ hfirst, hform, ?_⟩
  rw [hclimb]
  conv => lhs; rw [reach_eq]
  change climb reach left structs .jump _ = _
  rw [climb, bind_get, if_neg (by simpa using hleft.kind?_ne), hahead]
  dsimp only
  rw [if_neg (by simp [Precedence.rank]), if_neg (by simp), ← toTokens_symbol, bind_of_ok (symbol_ok hne pos (right.toTokens ++ rest)),
    bind_of_ok hoperand, climb_ends hrest]

end CallProbe.Source.Parse
