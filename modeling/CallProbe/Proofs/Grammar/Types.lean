import CallProbe.Proofs.Grammar.Agree

/-! # Rules for paths, types and generics

The rules for paths, types and parameters agree for two ways to reach other rules that agree on fewer tokens. A type may
start with a bound, and so with a path as it stands in one. -/

namespace CallProbe.Source.Parse

variable {n : Nat} {r r' : Reach}

/-! ### Paths -/

theorem constArgument_agree (h : Linked n r r') : Agree n (constArgument r) (constArgument r') :=
  .look fun _ _ => .ite .plain (.ite .plain (.ite (.bind (h.reach _) fun _ => .plain) .plain))

theorem boundLifetimes_agree (h : Below n r r') : Agree n (boundLifetimes r) (boundLifetimes r') :=
  h.take fun _ h _ => .keep fun _ => .bind (.separated (h.reach _)) fun _ => .plain

theorem parenArgs_agree (h : Below n r r') : Agree n (parenArgs r) (parenArgs r') := by
  refine .enter (h.elements fun m h => h.reach _) fun m hm args => ?_
  exact .bind (.when (.keep fun _ => .bind ((h.linked hm).reach _) fun _ => .plain)) fun _ => .plain

section Bounds

variable (h : Below n r r') (hpath : Agree n (r .typePath) (r' .typePath))

include h hpath

theorem traitBound_agree (place : BoundPlace) : Agree n (traitBound r place) (traitBound r' place) := by
  refine .bind (.when (boundLifetimes_agree h)) fun early => .look fun ts _ => .check (.keep fun _ => .keep fun _ =>
    .keep fun modifier => .look fun ts _ => .check (.bind hpath fun p => .bind (.when ?_) fun args => .plain))
  exact .keep fun _ => parenArgs_agree h

theorem bound_agree (place : BoundPlace) : Agree n (bound r place) (bound r' place) := by
  refine .look fun ts hts => .ite .plain (.ite (.check .plain) ?_)
  split
  · obtain ⟨hlinked, hrest⟩ := h.content hts
    refine .put hrest (.bind (.within ?_ (Nat.le_refl _)) fun b => ?_)
    · exact traitBound_agree hlinked.below (hlinked.reach _) place
    · split <;> exact .plain
  · refine .bind (traitBound_agree h hpath place) fun b => ?_
    split <;> exact .plain

end Bounds

theorem Linked.bound (h : Linked n r r') (place : BoundPlace) : Agree n (bound r place) (bound r' place) :=
  bound_agree h.below (h.reach _) place

theorem moreBoundsFuel_agree (h : Below n r r') (place : BoundPlace) (strict : Bool) (fuel : Nat) :
    Agree n (moreBoundsFuel r place strict fuel) (moreBoundsFuel r' place strict fuel) := by
  induction fuel generalizing n with
  | zero => exact .pure []
  | succ fuel ih =>
    refine .look fun ts _ => .ite .plain (h.symbol (by decide) fun m h plus => .look fun ts _ => .ite ?_ .plain)
    exact .bind (h.bound place) fun b => .bind (ih h.below) fun bs => .plain

theorem boundsAfter_agree (h : Below n r r') (place : BoundPlace) (strict : Bool) (first : Tree) :
    Agree n (boundsAfter r place strict first) (boundsAfter r' place strict first) :=
  .look fun _ _ => .bind (moreBoundsFuel_agree h place strict _) fun _ => .plain

theorem bounds_agree (h : Below n r r') (hpath : Agree n (r .typePath) (r' .typePath)) (place : BoundPlace) (plus : Bool) :
    Agree n (bounds r place plus) (bounds r' place plus) :=
  .bind (bound_agree h hpath place) fun first => .ite (boundsAfter_agree h place false first) .plain

theorem genericArg_agree (h : Linked n r r') : Agree n (genericArg r) (genericArg r') := by
  refine .look fun ts _ => .ite .plain (.ite (.bind (constArgument_agree h) fun _ => .plain) (.bind (h.reach _) fun ty => ?_))
  split
  · exact .plain
  · refine .look fun ts _ => .ite (.keep fun eq => .look fun ts _ => .ite ?const ?type) (.look fun ts _ => .ite ?constraint .plain)
    case const => exact .bind (constArgument_agree h) fun _ => .plain
    case type => exact .bind (h.reach _) fun _ => .plain
    case constraint => exact .keep fun colon => .bind (.joined (h.bound _)) fun _ => .plain

theorem angleArgs_agree (h : Below n r r') : Agree n (angleArgs r) (angleArgs r') :=
  .keep fun _ => h.symbol (by decide) fun _ h _ => .bind (.separated (genericArg_agree h)) fun _ => .plain

theorem segment_agree (h : Below n r r') (inExpr : Bool) : Agree n (segment r inExpr) (segment r' inExpr) := by
  have hargs : ∀ name, Agree n (do return Tree.node .segment [name, ← angleArgs r])
      (do return Tree.node .segment [name, ← angleArgs r']) := fun name => .bind (angleArgs_agree h) fun _ => .plain
  refine .look fun ts _ => .ite .plain (.look fun ts _ => .ite ?_ ?_)
  all_goals exact .keep fun name => .look fun ts _ => .ite (hargs name) .plain

theorem moreSegments_agree (h : Below n r r') (inExpr : Bool) :
    Agree n (moreSegments (segment r inExpr)) (moreSegments (segment r' inExpr)) :=
  .bind (.repeatWhile (.keep fun _ => .bind (segment_agree h inExpr) fun _ => .plain)) fun _ => .plain

theorem path_agree (h : Below n r r') (inExpr : Bool) : Agree n (path r inExpr) (path r' inExpr) :=
  .keep fun _ => .bind (segment_agree h inExpr) fun _ => .bind (moreSegments_agree h inExpr) fun _ => .plain

theorem anyPath_agree (h : Below n r r') (inExpr : Bool) : Agree n (anyPath r inExpr) (anyPath r' inExpr) := by
  refine .look fun ts _ => .ite (h.symbol (by decide) fun m h lt => .bind (h.reach _) fun ty => .keep fun as_ => ?_)
    (path_agree h inExpr)
  refine .bind (.part (path_agree h.below false)) fun inner => .keep fun gt => .keep fun colons =>
    .bind (segment_agree h.below inExpr) fun first => .bind (.repeatWhile ?_) fun rest => .plain
  exact .keep fun _ => .bind (segment_agree h.below inExpr) fun _ => .plain

/-! ### Types -/

instance (self : Bool) : Keeps (paramName self) := by
  unfold paramName
  infer_instance

instance : Takes abi := by
  unfold abi
  infer_instance

theorem returnType_agree (h : Below n r r') (plus : Bool) : Agree n (returnType r plus) (returnType r' plus) :=
  .when (h.symbol (by decide) fun _ h _ => .bind (h.reach _) fun _ => .plain)

theorem fnTypeParam_agree (h : Linked n r r') (first : Bool) (attrs : Tree) :
    Agree n (fnTypeParam r first attrs) (fnTypeParam r' first attrs) := by
  refine .look fun start _ => .keep fun _ => .keep fun named => .look fun ts _ => .ite .plain (.ite .plain ?_)
  exact .bind (h.reach _) fun ty => .plain

theorem fnTypeParamsFuel_agree (h : Linked n r r') (first : Bool) (fuel : Nat) :
    Agree n (fnTypeParamsFuel r first fuel) (fnTypeParamsFuel r' first fuel) := by
  induction fuel generalizing first with
  | zero => exact .pure []
  | succ fuel ih =>
    refine .look fun ts _ => .ite .plain (.bind (outerAttrs_agree h.below) fun attrs => .look fun ts _ => .ite .plain ?_)
    refine .bind (fnTypeParam_agree h first attrs) fun p => .look fun ts _ => .ite .plain ?_
    exact .keep fun comma => .bind (ih false) fun ps => .plain

theorem fnType_agree (h : Below n r r') (lifetimes : Tree) : Agree n (fnType r lifetimes) (fnType r' lifetimes) := by
  refine .keep fun danger => .keep fun abi => h.take fun m h f => .bind (h.below.group fun k h => ?_) fun params => ?_
  · exact .look fun ts _ => .bind (fnTypeParamsFuel_agree h true _) fun _ => .plain
  · exact .bind (returnType_agree h.below false) fun _ => .plain

theorem objectAfter_agree (h : Below n r r') (first : Tree) : Agree n (objectAfter r first) (objectAfter r' first) :=
  .bind (boundsAfter_agree h .object true first) fun _ => .plain

theorem parenType_agree (h : Below n r r') (plus : Bool) : Agree n (parenType r plus) (parenType r' plus) := by
  refine .look fun ts hts => ?_
  split
  · obtain ⟨hlinked, hrest⟩ := h.content hts
    have hobject : ∀ first, Agree n (objectAfter r first) (objectAfter r' first) := objectAfter_agree h
    refine .put hrest (.ite .plain (.ite ?lifetime (.ite ?relaxed ?types)))
    case lifetime => exact .bind (.within (hlinked.reach _) (Nat.le_refl _)) fun _ => .plain
    case relaxed =>
      refine .bind (.within (traitBound_agree hlinked.below (hlinked.reach _) .object) (Nat.le_refl _)) fun b => ?_
      split
      · exact hobject _
      · exact .refused
    case types =>
      refine .bind (.within (.commas (hlinked.reach _)) (Nat.le_refl _)) fun elems => ?_
      split
      · refine .look fun ts _ => .ite ?_ .plain
        split
        · exact hobject _
        · exact .plain
      · exact .plain
  · exact .plain

theorem pathType_agree (h : Below n r r') (plus : Bool) (lifetimes : Tree) :
    Agree n (pathType r plus lifetimes) (pathType r' plus lifetimes) := by
  refine .bind (anyPath_agree h false) fun p => .ite .plain (.look fun ts _ => .ite .plain (.ite (.ite ?_ .plain) .plain))
  exact .bind (boundsAfter_agree h .object false _) fun _ => .plain

theorem type_agree (h : Below n r r') (hpath : Agree n (r .typePath) (r' .typePath)) (plus : Bool) :
    Agree n (type r plus) (type r' plus) := by
  have hbounds : ∀ place plus, Agree n (bounds r place plus) (bounds r' place plus) := bounds_agree h hpath
  refine .bind (.when (boundLifetimes_agree h)) fun lifetimes => .look fun ts hts => .check (.ite (parenType_agree h plus)
    (.ite (fnType_agree h lifetimes) (.ite (pathType_agree h plus lifetimes) (.ite ?object (.ite ?array (.ite ?pointer
    (.ite ?reference (.ite .plain (.ite ?anonymous (.ite .plain (.ite ?bounds .plain)))))))))))
  case object => exact .keep fun d => .keep fun star => .bind (hbounds _ _) fun bs => .plain
  case array =>
    refine .look fun ts hts => ?_
    split
    · obtain ⟨hlinked, hrest⟩ := h.content hts
      refine .put hrest (.within ?_ (Nat.le_refl _))
      refine .bind (hlinked.reach _) fun elem => .look fun ts _ => .ite (.keep fun semi => ?_) .plain
      exact .bind (hlinked.reach _) fun _ => .plain
    · exact .plain
  case pointer =>
    refine h.symbol (by decide) fun m h star => .look fun ts _ => .ite ?_ ?_
    all_goals exact .keep fun m => .bind (h.reach _) fun _ => .plain
  case reference =>
    exact h.symbol (by decide) fun m h amp => .keep fun l => .keep fun m => .bind (h.reach _) fun _ => .plain
  case anonymous => exact .keep fun i => .bind (hbounds _ _) fun bs => .plain
  case bounds => exact .bind (hbounds _ _) fun bs => .plain

/-! ### Generics -/

theorem colonBounds_agree {stop : List TokenTree → Bool} {p q : Parser Tree} (h : Agree n p q) :
    Agree n (colonBounds stop p) (colonBounds stop q) :=
  .keep fun _ => .ite .plain (.bind (.joined h) fun _ => .plain)

theorem paramAfter_agree (h : Below n r r') (attrs : Tree) : Agree n (paramAfter r attrs) (paramAfter r' attrs) := by
  refine .look fun ts _ => .ite (.keep fun l => .bind (colonBounds_agree .plain) fun _ => .plain) (.ite ?const ?type)
  case const =>
    refine h.take fun m h c => .keep fun name => .keep fun colon => .bind (h.reach _) fun ty => .keep fun eq => ?_
    exact .bind (.part (constArgument_agree h)) fun _ => .plain
  case type =>
    refine h.take fun m h name => .bind (colonBounds_agree (h.bound _)) fun _ => .keep fun eq => ?_
    exact .bind (.part (h.reach _)) fun _ => .plain

theorem genericParam_agree (h : Below n r r') : Agree n (genericParam r) (genericParam r') :=
  .bind (outerAttrs_agree h) fun attrs => paramAfter_agree h attrs

theorem itemParam_agree (h : Below n r r') : Agree n (itemParam r) (itemParam r') :=
  .bind (outerAttrs_agree h) fun attrs => .look fun _ _ => .ite .plain (paramAfter_agree h attrs)

theorem generics_agree (h : Below n r r') : Agree n (generics r) (generics r') :=
  .when (h.symbol (by decide) fun _ h _ => .bind (.separated (itemParam_agree h.below)) fun _ => .keep fun _ => .plain)

theorem wherePredicate_agree (h : Linked n r r') : Agree n (wherePredicate r) (wherePredicate r') := by
  refine .look fun ts _ => .ite .plain (.bind (.when (boundLifetimes_agree h.below)) fun lifetimes => ?_)
  exact .bind (h.reach _) fun ty => .keep fun colon => .bind (.joined (h.bound _)) fun _ => .plain

theorem whereClause_agree (h : Below n r r') : Agree n (whereClause r) (whereClause r') :=
  .when (h.take fun _ h _ => .look fun _ _ => .check (.bind (.joined (wherePredicate_agree h)) fun _ => .plain))

theorem receiver_agree (h : Below n r r') (attrs : Tree) : Agree n (receiver attrs r) (receiver attrs r') := by
  refine .keep fun ref => .keep fun m => h.take fun k h self => .keep fun colon => ?_
  exact .bind (.part (h.reach _)) fun _ => .plain

theorem fnParam_agree (h : Linked n r r') : Agree n (fnParam r) (fnParam r') := by
  refine .bind (outerAttrs_agree h.below) fun attrs => .look fun ts _ => .ite .plain (.look fun ts _ =>
    .ite (receiver_agree h.below attrs) (.ite ?bare ?named))
  case bare => exact .bind (h.reach _) fun _ => .plain
  case named =>
    refine .bind (h.reach _) fun pat => .keep fun colon => .look fun ts _ => .ite .plain ?_
    exact .bind (h.reach _) fun _ => .plain

theorem signatureWith_agree (h : Below n r r') (safe : Bool) :
    Agree n (signatureWith r safe) (signatureWith r' safe) := by
  refine .keep fun c => .keep fun a => .keep fun u => .keep fun s => .keep fun abi => h.take fun m h f => .keep fun name =>
    .bind (generics_agree h.below) fun gs => .bind (h.below.elements fun k h => fnParam_agree h) fun params => .check ?_
  exact .bind (returnType_agree h.below true) fun output => .bind (whereClause_agree h.below) fun _ => .plain

theorem signature_agree (h : Below n r r') : Agree n (signature r) (signature r') :=
  .bind (signatureWith_agree h false) fun _ => .plain

end CallProbe.Source.Parse
