import CallProbe.Proofs.Grammar.Exprs

/-! # Rules for statements and items

The rules for statements, items and their members agree for two ways to reach other rules that agree on fewer tokens. A
statement starts with an item or with an expression, and may go back to its attributes for an item. -/

namespace CallProbe.Source.Parse

variable {n : Nat} {r r' : Reach}

/-! ### Statements -/

theorem letStmt_agree (h : Below n r r') (attrs : Tree) : Agree n (letStmt r attrs) (letStmt r' attrs) := by
  refine h.take fun m h l => .bind (h.reach _) fun pat => .look fun ts _ =>
    .ite (.bind (.keep fun colon => ?type) fun pat => ?typed) (.keep fun pat => ?bare)
  case type => exact .bind (h.reach _) fun _ => .plain
  all_goals
    refine .bind (.when (.keep fun eq => .bind (h.reach _) fun value => .bind (.when ?_) fun other => .plain)) fun init => .plain
    exact .keep fun e => .bind (h.reach _) fun _ => .plain

theorem exprStmt_agree (hearly : Agree n (r .earlyExpr) (r' .earlyExpr)) (attrs : Tree) :
    Agree n (exprStmt r attrs) (exprStmt r' attrs) := by
  refine .bind hearly fun e => .keep fun semi => ?_
  split <;> exact .plain

theorem itemStmt_agree {start : List TokenTree} (hitem : Agree n (r .item) (r' .item)) (hstart : tokenCount start ≤ n) :
    Agree n (itemStmt r start) (itemStmt r' start) :=
  .put hstart (.bind hitem fun _ => .plain)

theorem stmt_agree (h : Below n r r') (hitem : Agree n (r .item) (r' .item))
    (hearly : Agree n (r .earlyExpr) (r' .earlyExpr)) : Agree n (stmt r) (stmt r') := by
  refine .look fun start hstart => .bind (outerAttrs_agree h) fun attrs => .look fun ts _ => ?_
  cases pathStart ts with
  | item => exact itemStmt_agree hitem hstart
  | bracedMacro => exact .keep fun path => .bind (macroCall_agree h path) fun call => .plain
  | other =>
    exact .ite (letStmt_agree h attrs) (.ite (itemStmt_agree hitem hstart) (exprStmt_agree hearly attrs))

theorem stmtsFuel_agree (h : Linked n r r') (fuel : Nat) : Agree n (stmtsFuel r fuel) (stmtsFuel r' fuel) := by
  induction fuel with
  | zero => exact .refuse
  | succ fuel ih =>
    refine .look fun ts _ => .ite .plain (.ite (.keep fun semi => .bind ih fun ss => .plain) ?_)
    exact .bind (h.reach _) fun s => .look fun ts _ => .check (.bind ih fun ss => .plain)

theorem block_agree (h : Below n r r') (inner : Bool) : Agree n (block r inner) (block r' inner) := by
  refine .bind (h.group fun m h => .ite (.bind (innerAttrs_agree h.below) fun attrs => ?_) (.keep fun attrs => ?_)) fun _ => .plain
  all_goals exact .look fun ts _ => .bind (stmtsFuel_agree h _) fun ss => .plain

/-! ### Members -/

theorem itemsBody_agree {p q : Parser Tree} (h : Below n r r') (hp : ∀ m, Linked m r r' → Agree m p q) :
    Agree n (itemsBody r p) (itemsBody r' q) :=
  h.group fun m h => .bind (innerAttrs_agree h.below) fun _ => .bind (.repeatWhile (hp m h)) fun _ => .plain

instance : Keeps nameOrBlank := by
  unfold nameOrBlank
  infer_instance

theorem useTree_agree (h : Below n r r') (root : Bool) : Agree n (useTree r root) (useTree r' root) := by
  refine .look fun ts _ => .ite (h.take fun m h name => .look fun ts _ => .ite ?path .plain) (.ite .plain (.ite ?group .plain))
  case path => exact .keep fun colons => .bind (h.reach _) fun _ => .plain
  case group =>
    refine .bind (h.elements fun m h => .keep fun lead => ?_) fun _ => .plain
    exact .bind (h.reach _) fun _ => .plain

instance : Keeps visibility := keeps_look fun ts _ _ h => by
  split at h
  · obtain ⟨p, mid, hword, h⟩ := bind_ok h
    have hmid : tokenCount mid < tokenCount ts := Takes.lt hword
    obtain ⟨us, _, hget, h⟩ := bind_ok h
    cases hget
    split at h
    · rename_i o content c rest
      rw [tokenCount_cons] at hmid
      split at h
      · split at h
        · cases h
          omega
        · cases h
          rw [tokenCount_cons]
          omega
      · split at h
        · obtain ⟨inside, _, hinside, h⟩ := bind_ok h
          cases h
          omega
        · cases h
          rw [tokenCount_cons]
          omega
    · cases h
      omega
  · cases h
    exact Nat.le_refl _

instance (start : List TokenTree) : Keeps (passedThrough start) := inferInstanceAs (Keeps (passed _ _))

theorem namedFieldFuel_agree (h : Linked n r r') (fuel : Nat) :
    Agree n (namedFieldFuel r fuel) (namedFieldFuel r' fuel) := by
  induction fuel generalizing n with
  | zero => exact .refuse
  | succ fuel ih =>
    refine .bind (outerAttrs_agree h.below) fun attrs => .keep fun vis => .keep fun name => .keep fun colon =>
      .look fun start _ => .ite (.keep fun w => .bind (h.below.elements fun m h => ih h) fun _ => .plain) ?_
    exact .bind (h.reach _) fun _ => .plain

theorem namedFields_agree (h : Below n r r') : Agree n (namedFields r) (namedFields r') :=
  h.elements fun _ h => .look fun _ _ => namedFieldFuel_agree h _

theorem tupleFields_agree (h : Below n r r') : Agree n (tupleFields r) (tupleFields r') :=
  h.elements fun _ h => .bind (outerAttrs_agree h.below) fun _ => .keep fun _ => .bind (h.reach _) fun _ => .plain

theorem variant_agree (h : Linked n r r') : Agree n (variant r) (variant r') := by
  refine .bind (outerAttrs_agree h.below) fun attrs => .keep fun vis => .keep fun name => .look fun ts _ =>
    .ite (.bind (namedFields_agree h.below) fun fields => ?_) (.ite (.bind (tupleFields_agree h.below) fun fields => ?_)
      (.keep fun fields => ?_))
  all_goals exact .bind (.when (.keep fun _ => .bind (h.reach _) fun _ => .plain)) fun disc => .plain

theorem structItem_agree (h : Below n r r') (vis : Tree) : Agree n (structItem r vis) (structItem r' vis) := by
  refine .keep fun s => .keep fun name => .bind (generics_agree h) fun gs => .bind (whereClause_agree h) fun early =>
    .look fun ts _ => .ite ?tuple (.ite ?named .plain)
  case tuple => exact .bind (tupleFields_agree h) fun fields => .bind (whereClause_agree h) fun late => .plain
  case named => exact .bind (namedFields_agree h) fun _ => .plain

theorem constParts_agree (h : Linked n r r') : Agree n (constParts r) (constParts r') := by
  refine .keep fun name => .keep fun angled => .bind (generics_agree h.below) fun _ => .keep fun colon =>
    .bind (h.reach _) fun ty => .keep fun eq => .bind (.part (h.reach _)) fun value => .keep fun limited => ?_
  exact .bind (whereClause_agree h.below) fun _ => .plain

theorem memberBounds_agree (h : Linked n r r') : Agree n (memberBounds r) (memberBounds r') :=
  colonBounds_agree (h.bound _)

theorem macroMember_agree (attrs : Tree) : Agree n (macroMember attrs) (macroMember attrs) :=
  .keep fun _ => .keep fun _ => .anyGroup fun _ _ _ _ _ _ _ => .plain

theorem implMember_agree (h : Linked n r r') : Agree n (implMember r) (implMember r') := by
  refine .look fun begin _ => .bind (outerAttrs_agree h.below) fun attrs => .keep fun vis => .look fun ts _ =>
    .keep fun default_ => .look fun ts' _ => .ite ?method (.ite ?constant (.ite ?type (.ite (macroMember_agree _) .plain)))
  case method =>
    refine .bind (signature_agree h.below) fun sig => .look fun ts _ => .ite .plain (.bind (h.reach _) fun _ => .plain)
  case constant =>
    refine .keep fun c => .bind (constParts_agree h) fun parts => ?_
    split <;> exact .plain
  case type =>
    refine .keep fun t => .keep fun name => .bind (generics_agree h.below) fun gs => .keep fun bounded =>
      .bind (memberBounds_agree h) fun _ => .keep fun eq => .bind (.part (h.reach _)) fun ty => ?_
    exact .bind (whereClause_agree h.below) fun w => .plain

theorem traitMember_agree (h : Linked n r r') : Agree n (traitMember r) (traitMember r') := by
  refine .look fun begin _ => .bind (outerAttrs_agree h.below) fun attrs => .keep fun vis => .keep fun default_ =>
    .look fun ts _ => .ite (.bind ?method fun m => .plain) (.ite (.bind ?constant fun m => .plain)
      (.ite (.bind ?type fun m => .plain) (.ite (.bind (macroMember_agree _) fun m => .plain) .refused)))
  case method =>
    refine .bind (signature_agree h.below) fun sig => .look fun ts _ => .ite ?_ .plain
    exact .bind (h.reach _) fun body => .plain
  case constant =>
    refine .keep fun c => .bind (constParts_agree h) fun parts => ?_
    split <;> exact .plain
  case type =>
    refine .keep fun t => .keep fun name => .bind (generics_agree h.below) fun gs => .bind (memberBounds_agree h) fun bs =>
      .bind (.when (.keep fun _ => .bind (h.reach _) fun _ => .plain)) fun given => ?_
    exact .bind (whereClause_agree h.below) fun w => .plain

theorem foreignFn_agree (h : Linked n r r') (begin : List TokenTree) (attrs vis : Tree) :
    Agree n (foreignFn r begin attrs vis) (foreignFn r' begin attrs vis) := by
  refine .bind (signatureWith_agree h.below true) fun sig => .look fun ts _ => .ite ?_ .plain
  exact .bind (h.reach _) fun _ => .plain

theorem foreignStatic_agree (h : Linked n r r') (begin : List TokenTree) (attrs vis : Tree) :
    Agree n (foreignStatic r begin attrs vis) (foreignStatic r' begin attrs vis) := by
  refine .keep fun danger => .keep fun s => .keep fun m => .keep fun name => .keep fun colon => .bind (h.reach _) fun ty => ?_
  exact .keep fun eq => .bind (.part (h.reach _)) fun _ => .plain

theorem foreignMember_agree (h : Linked n r r') : Agree n (foreignMember r) (foreignMember r') := by
  refine .look fun begin _ => .bind (outerAttrs_agree h.below) fun attrs => .keep fun vis => .look fun ts _ =>
    .ite (foreignFn_agree h _ _ _) (.ite (foreignStatic_agree h _ _ _) (.ite ?type (.ite (macroMember_agree _) .plain)))
  refine .keep fun t => .keep fun name => .bind (generics_agree h.below) fun gs => .keep fun bounded =>
    .bind (memberBounds_agree h) fun _ => .keep fun limited => .bind (whereClause_agree h.below) fun w => .keep fun eq =>
    .bind (.part (h.reach _)) fun _ => .bind (.part (whereClause_agree h.below)) fun late => .plain

/-! ### Items -/

theorem implItem_agree (h : Below n r r') (begin : List TokenTree) (vis : Tree) :
    Agree n (implItem r begin vis) (implItem r' begin vis) := by
  refine .keep fun default_ => .keep fun u => h.take fun m h i => .look fun ts _ =>
    .ite (.bind (generics_agree h.below) fun gs => ?_) (.keep fun gs => ?_)
  all_goals
    refine .look fun ts _ => .keep fun _ => .keep fun _ => .keep fun bang => .bind (h.reach _) fun first => .keep fun f =>
      .ite (.bind (h.reach _) fun self => ?_) (.keep fun self => ?_)
    all_goals
      refine .check (.bind (whereClause_agree h.below) fun w =>
        .bind (itemsBody_agree h.below fun k h => implMember_agree h) fun body => .ite .plain (.ite .plain ?_))
      split <;> exact .plain

theorem traitRest_agree (h : Linked n r r') (front : List Tree) : Agree n (traitRest r front) (traitRest r' front) := by
  refine .keep fun colon => .ite (.bind (.separated (h.bound _)) fun bs => ?_) (.keep fun bs => ?_)
  all_goals
    refine .bind (whereClause_agree h.below) fun w => ?_
    exact .bind (itemsBody_agree h.below fun k h => traitMember_agree h) fun _ => .plain

theorem traitItem_agree (h : Below n r r') (vis : Tree) : Agree n (traitItem r vis) (traitItem r' vis) := by
  refine .keep fun u => .keep fun a => h.take fun m h t => .keep fun name => .bind (generics_agree h.below) fun gs =>
    .look fun ts _ => .ite (.keep fun eq => ?_) (traitRest_agree h _)
  exact .bind (.separated (h.bound _)) fun bs => .bind (whereClause_agree h.below) fun w => .plain

theorem modItem_agree (h : Below n r r') (vis : Tree) : Agree n (modItem r vis) (modItem r' vis) := by
  refine .keep fun u => .keep fun m => .look fun ts _ => .ite ?_ ?_
  all_goals
    refine .keep fun name => .look fun ts _ => .ite .plain ?_
    exact .bind (itemsBody_agree h fun k h => h.reach _) fun body => .plain

theorem foreignMod_agree (h : Below n r r') : Agree n (foreignMod r) (foreignMod r') :=
  .keep fun _ => .keep fun _ => .bind (itemsBody_agree h fun _ h => foreignMember_agree h) fun _ => .plain

theorem macroItem_agree : Agree n macroItem macroItem :=
  .keep fun _ => .keep fun _ => .keep fun _ => .anyGroup fun _ _ _ _ _ _ _ => .plain

theorem namedMacro_agree (begin : List TokenTree) : Agree n (namedMacro begin) (namedMacro begin) := by
  refine .keep fun _ => .keep fun _ => .look fun ts _ => .ite (.keep fun _ => ?_) ?_
  all_goals exact .look fun _ _ => .plain

theorem typeItem_agree (h : Below n r r') (begin : List TokenTree) (vis : Tree) :
    Agree n (typeItem r begin vis) (typeItem r' begin vis) := by
  refine h.take fun m h t => .keep fun name => .bind (generics_agree h.below) fun gs => .keep fun bounded =>
    .bind (memberBounds_agree h) fun _ => .bind (whereClause_agree h.below) fun w => .keep fun eq => ?_
  exact .bind (.part (h.reach _)) fun ty => .plain

theorem itemRest_agree (h : Below n r r') (hblock : Agree n (r (.block true)) (r' (.block true)))
    (begin : List TokenTree) (vis : Tree) : Agree n (itemRest r begin vis) (itemRest r' begin vis) := by
  have hforeign := foreignMod_agree h
  have htrait := traitItem_agree h vis
  have himpl := implItem_agree h begin vis
  have hmod := modItem_agree h vis
  refine .look fun ts _ => .ite ?fn (.ite (.ite .plain (.ite .plain hforeign)) (.ite ?use (.ite ?static (.ite ?const
    (.ite (.ite htrait (.ite himpl (.ite (.ite .plain hforeign) (.ite hmod .plain)))) (.ite hmod (.ite (typeItem_agree h _ _)
    (.ite (structItem_agree h vis) (.ite ?enum (.ite ?union (.ite htrait (.ite himpl (.ite (namedMacro_agree _)
    (.ite macroItem_agree .plain))))))))))))))
  case fn =>
    refine .bind (signature_agree h) fun sig => .look fun ts _ => .ite .plain (.bind hblock fun body => .plain)
  case use => exact h.take fun m h u => .keep fun lead => .bind (h.reach _) fun tree => .plain
  case static =>
    refine h.take fun m h s => .keep fun m => .keep fun name => .keep fun colon => .bind (.part (h.reach _)) fun ty => ?_
    exact .keep fun eq => .bind (.part (h.reach _)) fun value => .plain
  case const =>
    refine h.take fun m h c => .bind (constParts_agree h) fun parts => ?_
    split <;> exact .plain
  case enum =>
    refine .keep fun e => .keep fun name => .bind (generics_agree h) fun gs => .bind (whereClause_agree h) fun w => ?_
    exact .bind (h.elements fun k h => variant_agree h) fun variants => .plain
  case union =>
    refine .keep fun u => .keep fun name => .bind (generics_agree h) fun gs => .bind (whereClause_agree h) fun w => ?_
    exact .bind (namedFields_agree h) fun _ => .plain

theorem item_agree (h : Below n r r') (hblock : Agree n (r (.block true)) (r' (.block true))) :
    Agree n (item r) (item r') :=
  .look fun _ _ => .bind (outerAttrs_agree h) fun _ => .keep fun _ => .bind (itemRest_agree h hblock _ _) fun _ => .plain

end CallProbe.Source.Parse
