import CallProbe.Proofs.Grammar.Types

/-! # Rules for patterns and expressions

The rules for patterns and expressions agree for two ways to reach other rules that agree on fewer tokens. An expression
starts with an operand, and this may be a block and may be followed by calls, fields and operators. -/

namespace CallProbe.Source.Parse

variable {n : Nat} {r r' : Reach}

/-! ### Macro calls and patterns -/

theorem macroArguments_agree (h : Below n r r') (path : Tree) :
    Agree n (macroArguments r path) (macroArguments r' path) := by
  refine .anyGroup fun d o content c m _ hcontent => .ite (.bind (.attempt (.within ?_ (Nat.le_refl _))) fun args => ?_) .plain
  · exact .commas (h (tokenCount content) hcontent _)
  · cases args <;> exact .plain

theorem macroCall_agree (h : Below n r r') (path : Tree) : Agree n (macroCall r path) (macroCall r' path) :=
  .keep fun _ => .bind (macroArguments_agree h path) fun _ => .plain

instance : Keeps fieldIndex := keeps_look fun ts _ _ h => by
  split at h
  · rename_i t p rest
    revert h
    cases fieldDigits? t with
    | none =>
      rintro h
      cases h
    | some digits =>
      rintro h
      cases h
      simp
  · cases h

instance : Keeps member := by
  unfold member
  infer_instance

theorem alternatives_agree (h : Linked n r r') : Agree n (alternatives r) (alternatives r') := by
  refine .keep fun lead => .bind (h.reach _) fun first => .bind (.repeatWhile ?_) fun more => .plain
  exact .keep fun _ => .bind (h.reach _) fun _ => .plain

theorem constBlock_agree (h : Below n r r') : Agree n (constBlock r) (constBlock r') :=
  h.take fun _ h _ => .bind (h.reach _) fun _ => .plain

theorem rangeBound_agree (h : Below n r r') : Agree n (rangeBound r) (rangeBound r') := by
  refine .look fun ts _ => .ite .plain (.ite .plain (.ite ?_ (.ite (constBlock_agree h) .plain)))
  exact .bind (anyPath_agree h true) fun _ => .plain

instance : Keeps patternLimits := by
  unfold patternLimits
  infer_instance

theorem rangeFrom_agree (h : Below n r r') (start : Tree) : Agree n (rangeFrom r start) (rangeFrom r' start) :=
  .keep fun _ => .bind (rangeBound_agree h) fun _ => .plain

theorem fieldPat_agree (h : Linked n r r') (attrs : Tree) : Agree n (fieldPat r attrs) (fieldPat r' attrs) := by
  refine .look fun start _ => .ite .plain (.keep fun ref => .keep fun m => .ite ?_ ?_)
  all_goals
    refine .keep fun name => .look fun ts _ => .ite (.keep fun colon => ?_) .plain
    exact .bind (alternatives_agree h) fun _ => .plain

theorem fieldPatsFuel_agree (h : Linked n r r') (fuel : Nat) :
    Agree n (fieldPatsFuel r fuel) (fieldPatsFuel r' fuel) := by
  induction fuel with
  | zero => exact .refuse
  | succ fuel ih =>
    refine .look fun ts _ => .ite .plain (.bind (outerAttrs_agree h.below) fun attrs => .look fun ts _ => .ite .plain ?_)
    refine .bind (fieldPat_agree h attrs) fun f => .look fun ts _ => .ite .plain (.keep fun comma => ?_)
    exact .bind ih fun fs => .plain

theorem pathPattern_agree (h : Below n r r') : Agree n (pathPattern r) (pathPattern r') := by
  refine .bind (anyPath_agree h true) fun p => .look fun ts _ => .ite ?call (.ite ?fields (.ite ?elements (.ite ?range .plain)))
  case call => exact .bind (macroCall_agree h p) fun _ => .plain
  case fields =>
    refine .bind (h.group fun m h => .look fun ts _ => ?_) fun _ => .plain
    exact .bind (fieldPatsFuel_agree h _) fun _ => .plain
  case elements => exact .bind (h.elements fun _ h => alternatives_agree h) fun _ => .plain
  case range => exact rangeFrom_agree h _

theorem parenPattern_agree (h : Below n r r') : Agree n (parenPattern r) (parenPattern r') := by
  refine .look fun ts hts => ?_
  split
  · obtain ⟨hlinked, hrest⟩ := h.content hts
    refine .put hrest (.bind (.within (.commas (alternatives_agree hlinked)) (Nat.le_refl _)) fun elems => ?_)
    split <;> exact .plain
  · exact .plain

theorem pattern_agree (h : Below n r r') : Agree n (pattern r) (pattern r') := by
  refine .look fun ts _ => .ite (pathPattern_agree h) (.ite .plain (.ite ?box (.ite ?bound (.ite ?name (.ite ?reference
    (.ite (parenPattern_agree h) (.ite ?slice (.ite ?range .plain))))))))
  case box => exact h.take fun _ h _ => .bind (h.reach _) fun _ => .plain
  case bound =>
    exact .bind (rangeBound_agree h) fun start => .look fun ts _ => .ite (rangeFrom_agree h start) .plain
  case name =>
    refine .keep fun ref => .keep fun m => .look fun ts _ => .ite ?_ ?_
    all_goals
      refine h.take fun k h name => .bind (.when (.keep fun _ => ?_)) fun sub => .plain
      exact .bind (h.reach _) fun _ => .plain
  case reference => exact h.symbol (by decide) fun _ h _ => .keep fun _ => .bind (h.reach _) fun _ => .plain
  case slice =>
    refine .bind (h.elements fun _ h => alternatives_agree h) fun elems => ?_
    split <;> exact .plain
  case range =>
    refine .ite ?_ ?_
    all_goals exact .keep fun limits => .bind (rangeBound_agree h) fun stop => .plain

/-! ### Operators and what follows an expression -/

theorem rangeRest_agree (h : Below n r r') (structs : Bool) : Agree n (rangeRest r structs) (rangeRest r' structs) := by
  refine .look fun ts _ => .ite ?closed (.ite .plain ?range)
  case closed => exact h.symbol (by decide) fun _ h _ => .bind (h.reach _) fun _ => .plain
  case range => exact h.symbol (by decide) fun _ h _ => .look fun _ _ => .ite .plain (.bind (h.reach _) fun _ => .plain)

theorem takes_operator {ts : List TokenTree} {op : String} {p : Precedence} (h : operatorAhead ts = some (op, p)) :
    op.toList ≠ [] := by
  have hall : ∀ o ∈ binaryOperators, o.1.toList ≠ [] := by decide
  exact hall (op, p) (List.mem_of_find?_eq_some h)

theorem climb_agree (h : Below n r r') (left : Tree) (structs : Bool) (base : Precedence) :
    Agree n (climb r left structs base) (climb r' left structs base) := by
  refine .look fun ts _ => .ite .plain ?_
  cases hop : operatorAhead ts with
  | some op =>
    obtain ⟨op, p⟩ := op
    refine .ite .plain (.ite ⟨fun _ => rfl, fun _ h => by cases h⟩ (h.symbol (takes_operator hop) fun m h o => ?_))
    exact .bind (h.reach _) fun right => h.reach _
  | none =>
    refine .ite ?assign (.ite ?range (.ite ?cast .plain))
    case assign => exact h.symbol (by decide) fun m h eq => .bind (h.reach _) fun right => h.reach _
    case range => exact .bind (rangeRest_agree h structs) fun stop => .plain
    case cast =>
      exact h.take fun m h as_ => .bind (h.reach _) fun ty => .look fun ts _ => .check (h.reach _)

theorem operandFuel_agree (hclimb : ∀ left base, Agree n (r (.climb left structs base)) (r' (.climb left structs base)))
    (after : Precedence) (fuel : Nat) (e : Tree) :
    Agree n (operandFuel r structs after fuel e) (operandFuel r' structs after fuel e) := by
  induction fuel generalizing e with
  | zero => exact .pure e
  | succ fuel ih =>
    refine .look fun before _ => .ite (.bind (hclimb _ _) fun e' => .look fun ts _ => .ite .plain (ih e')) .plain

theorem operand_agree (hunary : Agree n (r (.unary structs)) (r' (.unary structs)))
    (hclimb : ∀ left base, Agree n (r (.climb left structs base)) (r' (.climb left structs base))) (after : Precedence) :
    Agree n (operand r structs after) (operand r' structs after) :=
  .bind hunary fun e => .look fun _ _ => operandFuel_agree hclimb after _ e

theorem arguments_agree (h : Below n r r') : Agree n (group .paren do return [← commas (r (.expr true))])
    (group .paren do return [← commas (r' (.expr true))]) :=
  h.elements fun _ h => h.reach _

theorem afterDot_agree (h : Below n r r') (base dot : Tree) : Agree n (afterDot r base dot) (afterDot r' base dot) := by
  refine .look fun ts _ => .ite .plain (.keep fun m => .look fun ts _ => .ite ?turbofish (.ite ?call .plain))
  case turbofish =>
    refine .keep fun colons => .look fun ts _ => .check (.bind (angleArgs_agree h) fun args => ?_)
    split
    · exact .bind (arguments_agree h) fun _ => .plain
    · exact .plain
  case call => exact .bind (arguments_agree h) fun _ => .plain

theorem dotted_agree {k l : Tree → Parser Tree} (h : Below n r r') (hk : ∀ m, Linked m r r' → ∀ e, Agree m (k e) (l e))
    (base : Tree) :
    Agree n (dotted r base >>= k) (dotted r' base >>= l) := by
  refine .assoc (h.symbol (by decide) fun m h dot =>
    .bind (.look fun ts hts => .ite ?_ (afterDot_agree h.below base dot)) (hk m h))
  split
  · rename_i t p rest
    rw [tokenCount_cons] at hts
    cases fieldsOfNumber t with
    | none => exact .plain
    | some fields => exact .put (by omega) (.ite (afterDot_agree h.below _ _) .plain)
  · exact .plain

theorem trailers_agree (h : Below n r r') (base : Tree) : Agree n (trailers r base) (trailers r' base) := by
  refine .look fun ts _ => .ite ?call (.ite ?dot (.ite ?index (.ite ?question .plain)))
  case call => exact .enter (arguments_agree h) fun m hm args => h m hm _
  case dot => exact dotted_agree h (fun m h e => h.reach _) base
  case index => exact .enter (h.group fun _ h => .bind (h.reach _) fun _ => .plain) fun m hm key => h m hm _
  case question => exact h.symbol (by decide) fun _ h _ => h.reach _

/-! ### Expressions that start with a word or a bracket -/

theorem fieldValue_agree (h : Linked n r r') : Agree n (fieldValue r) (fieldValue r') := by
  refine .bind (outerAttrs_agree h.below) fun attrs => .keep fun m => .look fun ts _ => .ite (.keep fun colon => ?_) .plain
  exact .bind (h.reach _) fun _ => .plain

theorem fieldValuesFuel_agree (h : Linked n r r') (fuel : Nat) :
    Agree n (fieldValuesFuel r fuel) (fieldValuesFuel r' fuel) := by
  induction fuel with
  | zero => exact .refuse
  | succ fuel ih =>
    refine .look fun ts _ => .ite .plain (.look fun ts _ => .ite ?base ?field)
    case base => exact .keep fun dots => .bind (.when (h.reach _)) fun _ => .plain
    case field =>
      refine .bind (fieldValue_agree h) fun f => .look fun ts _ => .ite .plain (.keep fun comma => ?_)
      exact .bind ih fun fs => .plain

theorem pathExpr_agree (h : Below n r r') (structs : Bool) : Agree n (pathExpr r structs) (pathExpr r' structs) := by
  refine .bind (anyPath_agree h true) fun p => .look fun ts _ => .ite ?call (.ite ?fields .plain)
  case call => exact .bind (macroCall_agree h p) fun _ => .plain
  case fields =>
    refine .bind (h.group fun m h => .look fun ts _ => ?_) fun _ => .plain
    exact .bind (fieldValuesFuel_agree h _) fun _ => .plain

theorem parenExpr_agree (h : Below n r r') : Agree n (parenExpr r) (parenExpr r') := by
  refine .look fun ts hts => ?_
  split
  · obtain ⟨hlinked, hrest⟩ := h.content hts
    refine .put hrest (.bind (.within (.commas (hlinked.reach _)) (Nat.le_refl _)) fun elems => ?_)
    split <;> exact .plain
  · exact .plain

theorem arrayExpr_agree (h : Below n r r') : Agree n (arrayExpr r) (arrayExpr r') := by
  refine .look fun ts hts => ?_
  split
  · obtain ⟨hlinked, hrest⟩ := h.content hts
    refine .put hrest (.within (.look fun ts _ => .ite .plain ?_) (Nat.le_refl _))
    refine .bind (hlinked.reach _) fun first => .look fun ts _ => .ite ?repeated (.look fun ts _ => .ite .plain ?listed)
    case repeated => exact .keep fun semi => .bind (hlinked.reach _) fun _ => .plain
    case listed => exact .keep fun comma => .bind (.commas (hlinked.reach _)) fun _ => .plain
  · exact .plain

theorem closureParam_agree (h : Linked n r r') : Agree n (closureParam r) (closureParam r') := by
  refine .bind (outerAttrs_agree h.below) fun attrs => .bind (h.reach _) fun pat => .look fun ts _ => .ite ?_ .plain
  exact .keep fun colon => .bind (h.reach _) fun _ => .plain

theorem closure_agree (h : Below n r r') (structs : Bool) : Agree n (closure r structs) (closure r' structs) := by
  refine .bind (.when (boundLifetimes_agree h)) fun lifetimes => .keep fun c => .keep fun s => .keep fun a => .keep fun m =>
    h.symbol (by decide) fun k h or1 => .bind (.separated (closureParam_agree h)) fun params => .keep fun or2 =>
    .bind (returnType_agree h.below true) fun output => .ite ?_ ?_
  · exact .bind (.bind (h.reach _) fun _ => .plain) fun body => .plain
  · exact .bind (h.reach _) fun body => .plain

theorem ifFuel_agree (h : Below n r r') (fuel : Nat) : Agree n (ifFuel r fuel) (ifFuel r' fuel) := by
  induction fuel generalizing n with
  | zero => exact .refuse
  | succ fuel ih =>
    refine h.take fun m h i => .bind (h.reach _) fun cond => .bind (h.reach _) fun body => .bind (.when ?_) fun other => .plain
    refine .keep fun e => .look fun ts _ => .ite (.bind (ih h.below) fun _ => .plain) ?_
    exact .bind (h.reach _) fun _ => .plain

theorem ifExpr_agree (h : Below n r r') : Agree n (ifExpr r) (ifExpr r') := .look fun _ _ => ifFuel_agree h _

theorem whileExpr_agree (h : Below n r r') (label : Tree) : Agree n (whileExpr r label) (whileExpr r' label) :=
  h.take fun _ h _ => .bind (h.reach _) fun _ => .bind (h.reach _) fun _ => .plain

theorem forExpr_agree (h : Below n r r') (label : Tree) : Agree n (forExpr r label) (forExpr r' label) :=
  h.take fun _ h _ => .bind (alternatives_agree h) fun _ => .keep fun _ => .bind (h.reach _) fun _ =>
    .bind (h.reach _) fun _ => .plain

theorem loopExpr_agree (h : Below n r r') (label : Tree) : Agree n (loopExpr r label) (loopExpr r' label) :=
  h.take fun _ h _ => .bind (h.reach _) fun _ => .plain

theorem arm_agree (h : Linked n r r') : Agree n (arm r) (arm r') := by
  refine .bind (outerAttrs_agree h.below) fun attrs => .bind (alternatives_agree h) fun pat => .bind (.when ?_) fun guard =>
    .keep fun arrow => .bind (h.reach _) fun body => .look fun ts _ => .plain
  exact .keep fun _ => .bind (h.reach _) fun _ => .plain

theorem matchExpr_agree (h : Below n r r') : Agree n (matchExpr r) (matchExpr r') := by
  refine h.take fun m h w => .bind (h.reach _) fun e => .bind (h.below.group fun k h => ?_) fun arms => .plain
  exact .bind (innerAttrs_agree h.below) fun inner => .bind (.repeatWhile (arm_agree h)) fun _ => .plain

theorem wordBlock_agree (h : Below n r r') (w : String) (kind : Kind) (inner : Bool) :
    Agree n (wordBlock r w kind inner) (wordBlock r' w kind inner) :=
  h.take fun _ h _ => .bind (h.reach _) fun _ => .plain

theorem labeled_agree (h : Below n r r') : Agree n (labeled r) (labeled r') := by
  refine h.take fun m h l => .keep fun colon => .look fun ts _ => .ite (whileExpr_agree h.below _)
    (.ite (forExpr_agree h.below _) (.ite (loopExpr_agree h.below _) (.ite ?_ .plain)))
  exact .bind (h.reach _) fun _ => .plain

theorem atom_agree (h : Below n r r') (hblock : Agree n (r (.block true)) (r' (.block true))) (structs : Bool) :
    Agree n (atom r structs) (atom r' structs) := by
  have hresult : ∀ (w : String) (k : Kind),
      Agree n (do let w ← word w; return Tree.node k [.noAttrs, w, ← whenAhead exprAhead (r (.expr true))])
        (do let w ← word w; return Tree.node k [.noAttrs, w, ← whenAhead exprAhead (r' (.expr true))]) :=
    fun w k => h.take fun _ h _ => .bind (.when (h.reach _)) fun _ => .plain
  refine .look fun ts hts => .ite .plain (.ite ?future (.ite (wordBlock_agree h _ _ _) (.ite (closure_agree h _) (.ite ?builtin
    (.ite (pathExpr_agree h _) (.ite (parenExpr_agree h) (.ite ?leave (.ite .plain (.ite (hresult _ _) (.ite ?jump
    (.ite (arrayExpr_agree h) (.ite ?condition (.ite (ifExpr_agree h) (.ite (whileExpr_agree h _) (.ite (forExpr_agree h _)
    (.ite (loopExpr_agree h _) (.ite (matchExpr_agree h) (.ite (hresult _ _) (.ite (wordBlock_agree h _ _ _)
    (.ite (constBlock_agree h) (.ite ?block (.ite ?range (.ite .plain
    (.ite (labeled_agree h) .plain))))))))))))))))))))))))
  case future => exact h.take fun _ h _ => .keep fun _ => .bind (h.reach _) fun _ => .plain
  case builtin => exact .keep fun _ => .keep fun _ => .keep fun _ => .look fun _ _ => .check .plain
  case leave =>
    refine .enter .plain fun m hm b => .keep fun l => .look fun us _ => .ite ?_ ?_
    · have hafter := tokenCount_tail_lt (by omega) hts
      exact .abandon (Nat.le_refl _) (h _ hafter _)
    · exact .bind (.when (h m hm _)) fun _ => .plain
  case jump => exact h.take fun _ h _ => .bind (h.reach _) fun _ => .plain
  case condition =>
    exact h.take fun _ h _ => .bind (alternatives_agree h) fun _ => .keep fun _ => .bind (h.reach _) fun _ =>
      .bind (h.reach _) fun _ => .plain
  case block => exact .bind hblock fun _ => .plain
  case range => exact .bind (rangeRest_agree h structs) fun _ => .plain

theorem unary_agree (h : Below n r r') (hblock : Agree n (r (.block true)) (r' (.block true)))
    (htrailers : ∀ base, Agree n (r (.trailers base)) (r' (.trailers base))) (structs : Bool) :
    Agree n (unary r structs) (unary r' structs) := by
  refine .look fun start _ => .bind (outerAttrs_agree h) fun attrs => .look fun ts _ => .ite ?reference ?_
  case reference =>
    refine h.symbol (by decide) fun m h amp => .look fun ts _ => .ite ?_ ?_
    · exact .keep fun raw => .keep fun m => .bind (h.reach _) fun _ => .plain
    · exact .keep fun m => .bind (h.reach _) fun _ => .plain
  cases hop : ["*", "!", "-"].find? (Ahead.symbol · ts) with
  | some op =>
    have hne : op.toList ≠ [] := by
      have hall : ∀ o ∈ ["*", "!", "-"], o.toList ≠ [] := by decide
      exact hall op (List.mem_of_find?_eq_some hop)
    exact h.symbol hne fun m h o => .bind (h.reach _) fun _ => .plain
  | none => exact .bind (atom_agree h hblock structs) fun e => .bind (htrailers e) fun e => .plain

theorem blockLike?_agree (h : Below n r r') (hblock : Agree n (r (.block true)) (r' (.block true))) :
    Agree n (blockLike? r) (blockLike? r') := by
  refine .look fun ts _ => .ite ?_ (.ite ?_ (.ite ?_ (.ite ?_ (.ite ?_ (.ite ?_ (.ite ?_ (.ite ?_ (.ite ?_
    (.ite ?_ .plain)))))))))
  · exact .bind (ifExpr_agree h) fun _ => .plain
  · exact .bind (whileExpr_agree h _) fun _ => .plain
  · exact .bind (forExpr_agree h _) fun _ => .plain
  · exact .bind (loopExpr_agree h _) fun _ => .plain
  · exact .bind (matchExpr_agree h) fun _ => .plain
  · exact .bind (wordBlock_agree h _ _ _) fun _ => .plain
  · exact .bind (wordBlock_agree h _ _ _) fun _ => .plain
  · exact .bind (constBlock_agree h) fun _ => .plain
  · exact .bind hblock fun _ => .plain
  · exact .bind (labeled_agree h) fun _ => .plain

theorem earlyExpr_agree (h : Below n r r') (hblock : Agree n (r (.block true)) (r' (.block true)))
    (hunary : Agree n (r (.unary true)) (r' (.unary true)))
    (htrailers : ∀ base, Agree n (r (.trailers base)) (r' (.trailers base)))
    (hclimb : ∀ left, Agree n (r (.climb left true .jump)) (r' (.climb left true .jump))) :
    Agree n (earlyExpr r) (earlyExpr r') := by
  refine .bind (outerAttrs_agree h) fun attrs => .bind (blockLike?_agree h hblock) fun e => ?_
  cases e with
  | none => exact .bind hunary fun e => .bind (hclimb _) fun _ => .plain
  | some e => exact .look fun ts _ => .ite (.bind (htrailers e) fun e => hclimb _) .plain

theorem expr_agree {structs : Bool} (hunary : Agree n (r (.unary structs)) (r' (.unary structs)))
    (hclimb : ∀ left, Agree n (r (.climb left structs .jump)) (r' (.climb left structs .jump))) :
    Agree n (expr r structs) (expr r' structs) :=
  .bind hunary hclimb

end CallProbe.Source.Parse
