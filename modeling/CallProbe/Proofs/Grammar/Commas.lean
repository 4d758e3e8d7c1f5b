import CallProbe.Proofs.Grammar.Followed
import CallProbe.Proofs.Grammar.Nesting

/-! # Paths in front of a comma

No rule that a path can come to takes a comma outside of brackets and angle brackets, and none needs more tokens where one
comes. So a path that some tokens are is also read in front of a comma, and ends there (`path_before_comma`). -/

namespace CallProbe.Source.Parse

variable {c : Comma} {r : Reach}

/-- A way to reach goals that reads in front of a comma what may stand in a path. -/
structure FollowsTypes (c : Comma) (r : Reach) : Prop where
  path : Follows c (r .typePath) (r .typePath)
  type : ∀ plus, Follows c (r (.type plus)) (r (.type plus))
  param : Follows c (r .genericParam) (r .genericParam)
  block : ∀ inner, Follows c (r (.block inner)) (r (.block inner))
  /-- A path is made of tokens. -/
  needs : ∀ x, r .typePath [] ≠ .ok x

/-! ### Paths -/

section

variable (h : FollowsTypes c r)

include h

theorem constArgument_follows : Follows c (constArgument r) (constArgument r) := fun ts =>
  .look (.ite (Steady.literal ts) (.bind (Follows.literal ts) fun _ => .pure _) (.ite (Steady.name ts)
    (.bind (Follows.name ts) fun _ => .pure _) (.ite (Steady.group _ ts) (.bind (h.block _ ts) fun _ => .pure _) .refuse)))

theorem boundLifetimes_follows : Follows c (boundLifetimes r) (boundLifetimes r) :=
  .bind (.word _) fun _ => .bind (.symbol (by decide)) fun _ =>
    .bind (.separated (.symbol (by decide) (by decide)) (by decide) h.param) fun _ =>
    .bind (.symbol (by decide)) fun _ => .pure _

theorem arrow_follows (plus : Bool) : Follows c (returnType r plus) (returnType r plus) :=
  .when (.symbol (by decide) (by decide)) (.bind (.symbol (by decide)) fun _ => .bind (h.type _) fun _ => .pure _)

theorem parenArgs_follows : Follows c (parenArgs r) (parenArgs r) :=
  .bind (.group _ _) fun _ => .bind (arrow_follows h false) fun _ => .pure _

end

theorem length_of_lifetime {ts : List TokenTree} (h : Ahead.lifetime ts = true) : 1 ≤ ts.length := by
  cases ts with
  | nil => cases h
  | cons t ts => exact Nat.succ_le_succ (Nat.zero_le _)

/-- Whether a comma comes next can be seen from any token. -/
theorem comma_ahead {ts : List TokenTree} (hts : ts ≠ []) : Ahead.symbol "," (ts ++ c.tokens) = Ahead.symbol "," ts := by
  cases ts with
  | nil => exact absurd rfl hts
  | cons t ts => cases t <;> rfl

theorem length_of_colons {ts : List TokenTree} (h : Ahead.symbol "::" ts = true) : 2 ≤ ts.length := Ahead.symbol_length h

theorem argsAhead_steady (inExpr : Bool) : Steady c fun ts =>
    (!inExpr && Ahead.symbol "<" ts && !Ahead.symbol "<=" ts && !Ahead.symbol "<<=" ts) ||
      (Ahead.symbol "::" ts && Ahead.symbol "<" (ts.drop 2)) := by
  refine .or ?_ (.later (.symbol (by decide) (by decide)) (fun _ => length_of_colons) (.symbol (by decide) (by decide)))
  refine .and (.and (fun ts => ?_) (.not (.symbol (by decide) (by decide)))) (.not (.symbol (by decide) (by decide)))
  exact congrArg _ (Steady.symbol (by decide) (by decide) ts)

theorem parenArgsAhead_steady : Steady c parenArgsAhead :=
  .or (.group _) (.later (.symbol (by decide) (by decide)) (fun _ => length_of_colons) (.group _))

section

variable (h : FollowsTypes c r)

include h

theorem traitBound_follows (place : BoundPlace) : Follows c (traitBound r place) (traitBound r place) := by
  refine .bind (.when (.word _) (boundLifetimes_follows h)) fun early ts => .look ?_
  simp only [Steady.group Delimiter.bracket ts, Steady.word "const" ts]
  refine .check rfl (.bind (Follows.part (.group _ _) ts) fun _ => .bind (.part (.word _)) fun _ =>
    .bind (.symbol? (by decide) (by decide)) fun modifier ts => .look ?_)
  simp only [Steady.word "for" ts]
  refine .check rfl (.bind (h.path ts) fun p => .bind (.when ?_ ?_) fun args => .pure _)
  · exact fun ts => congrArg (lastIsBare p && ·) (parenArgsAhead_steady ts)
  · exact .bind (.symbol? (by decide) (by decide)) fun _ => parenArgs_follows h

theorem bound_follows (place : BoundPlace) : Follows c (bound r place) (bound r place) := by
  have htrait := traitBound_follows h place
  intro ts
  refine .look (.ite (Steady.lifetime ts) (.bind (Follows.lifetime ts) fun _ => .pure _) (.ite (Steady.word _ ts)
    (.check rfl (.bind (Follows.word _ ts) fun _ => ?captured)) ?trait))
  case captured =>
    refine .bind (.symbol (by decide)) fun _ => .bind (.separated (.symbol (by decide) (by decide)) (by decide) fun ts => ?_)
      fun _ => .bind (.symbol (by decide)) fun _ => .pure _
    exact .look (.ite (Steady.lifetime ts) (Follows.lifetime ts) (.ite (Steady.word _ ts) (Follows.anyWord ts) (Follows.name ts)))
  case trait =>
    have hplain {f g : Option Tree → Parser Tree} (hnone : Follows c (f none) (g none))
        (hsome : ∀ b, Follows c (f (some b)) (g (some b))) : FollowsAt c ts (traitBound r place >>= f) (traitBound r place >>= g) := by
      refine .bind (htrait ts) fun b => ?_
      cases b with
      | none => exact hnone
      | some b => exact hsome b
    cases ts with
    | nil => exact hplain (fun _ => .passed _ _) fun _ => .pure _
    | cons t ts =>
      cases t with
      | group d o content cl =>
        cases d with
        | paren =>
          refine .put (List.suffix_cons _ _) (.bind .within fun b us => ?_)
          cases b with
          | none => exact .passed _ _
          | some b => exact .pure _
        | _ => exact hplain (fun _ => .passed _ _) fun _ => .pure _
      | _ => exact hplain (fun _ => .passed _ _) fun _ => .pure _

theorem traitBound_needs (place : BoundPlace) (x : Option Tree × List TokenTree) : traitBound r place [] ≠ .ok x := by
  intro hx
  obtain ⟨_, _⟩ := x
  obtain ⟨early, _, hearly, hx⟩ := bind_ok hx
  cases hearly
  rw [bind_get] at hx
  simp only [Ahead.group, Ahead.word, Bool.or_false, Bool.false_and, Bool.false_eq_true, if_false] at hx
  obtain ⟨_, _, hpart, hx⟩ := bind_ok hx
  cases hpart
  obtain ⟨_, _, hpart, hx⟩ := bind_ok hx
  cases hpart
  obtain ⟨_, _, hmodifier, hx⟩ := bind_ok hx
  cases hmodifier
  rw [bind_get] at hx
  simp only [Tree.absent, Tree.isPresent, Bool.false_and, Bool.false_eq_true] at hx
  obtain ⟨_, _, hpath, -⟩ := bind_ok hx
  exact h.needs _ hpath

/-- A bound is made of tokens. -/
theorem bound_needs (place : BoundPlace) (x : Tree × List TokenTree) : bound r place [] ≠ .ok x := by
  intro hx
  obtain ⟨_, _⟩ := x
  rw [bound, bind_get] at hx
  simp only [Ahead.lifetime, Ahead.word, Bool.false_eq_true, if_false] at hx
  obtain ⟨_, _, hbound, -⟩ := bind_ok hx
  exact traitBound_needs h place _ hbound

omit h in
theorem boundAhead_steady (place : BoundPlace) : Steady c place.boundAhead :=
  .or (.or (.or (.or (.or .anyWord (.symbol (by decide) (by decide))) (.symbol (by decide) (by decide))) .lifetime) (.group _))
    (fun ts => congrArg _ (Steady.group _ ts))

theorem moreBoundsFuel_follows (place : BoundPlace) (strict : Bool) {n m : Nat} {ts : List TokenTree} (hn : ts.length < n)
    (hm : ts.length < m) : FollowsAt c ts (moreBoundsFuel r place strict n) (moreBoundsFuel r place strict m) := by
  have hplus : ∀ us, Ahead.symbol "+" (us ++ c.tokens) = Ahead.symbol "+" us := Steady.symbol (by decide) (by decide)
  have := takes_symbol (show "+".toList ≠ [] by decide)
  induction n generalizing ts m with
  | zero => exact absurd hn (Nat.not_lt_zero _)
  | succ n ih =>
    obtain ⟨m, rfl⟩ : ∃ k, m = k + 1 := Nat.exists_eq_succ_of_ne_zero (by omega)
    refine .look (.ite (congrArg _ (hplus ts)) (.pure _) (.step (Follows.symbol (by decide) ts) fun {plus mid} hmid => ?_))
    have hlt := (Follows.symbol (c := c) (by decide) ts).length_lt hmid
    refine .look (.ite (congrArg _ (boundAhead_steady place mid)) (.step (bound_follows h place mid) fun {b last} hlast => ?_) (.pure _))
    have hle := ((bound_follows h place mid).ends hlast).length_le
    exact .bind (ih (by omega) (by omega)) fun _ => .pure _

theorem boundsAfter_follows (place : BoundPlace) (strict : Bool) (first : Tree) :
    Follows c (boundsAfter r place strict first) (boundsAfter r place strict first) := fun _ =>
  .look (.bind (moreBoundsFuel_follows h place strict (Nat.lt_succ_self _) (by rw [List.length_append]; omega)) fun _ => .pure _)

theorem bounds_follows (place : BoundPlace) (plus : Bool) : Follows c (bounds r place plus) (bounds r place plus) :=
  .bind (bound_follows h place) fun first => .ite (boundsAfter_follows h place false first) (.pure _)

theorem genericArg_follows : Follows c (genericArg r) (genericArg r) := by
  intro ts
  refine .look (.ite ?_ (.bind (Follows.lifetime ts) fun _ => .pure _) (.ite ?_
    (.bind (constArgument_follows h ts) fun _ => .pure _) (.bind (h.type _ ts) fun ty us => ?_)))
  · exact Steady.later .lifetime (fun _ => length_of_lifetime) (.not (.symbol (by decide) (by decide))) ts
  · exact Steady.or .literal (.group _) ts
  · cases singleSegment? ty with
    | none => exact .pure _
    | some x =>
      refine .look (.ite (Steady.symbol (by decide) (by decide) us) (.bind (Follows.symbol (by decide) us) fun eq vs => ?assoc)
        (.look (.ite (Steady.symbol (by decide) (by decide) us) (.bind (Follows.symbol (by decide) us) fun colon => ?constraint)
          (.pure _))))
      case assoc =>
        exact .look (.ite (Steady.or .literal (.group _) vs) (.bind (constArgument_follows h vs) fun _ => .pure _)
          (.bind (h.type _ vs) fun _ => .pure _))
      case constraint =>
        refine .bind (.joined (fun us hus => ?_) rfl (bound_needs h _) (by decide) (by decide) (bound_follows h _)) fun _ => .pure _
        rw [comma_ahead hus, show Ahead.symbol ">" (us ++ c.tokens) = _ from Steady.symbol (by decide) (by decide) us]

theorem angleArgs_follows : Follows c (angleArgs r) (angleArgs r) :=
  .bind (.symbol? (by decide) (by decide)) fun _ => .bind (.symbol (by decide)) fun _ =>
    .bind (.separated (.symbol (by decide) (by decide)) (by decide) (genericArg_follows h)) fun _ =>
    .bind (.symbol (by decide)) fun _ => .pure _

theorem segment_follows (inExpr : Bool) : Follows c (segment r inExpr) (segment r inExpr) := by
  intro ts
  refine .look (.ite (Steady.oneOf _ ts) (.bind (Follows.anyWord ts) fun _ => .pure _) ?_)
  refine .look (.ite (Steady.word _ ts) (.bind (Follows.anyWord ts) ?_) (.bind (Follows.name ts) ?_))
  all_goals
    exact fun n us => .look (.ite (argsAhead_steady inExpr us) (.bind (angleArgs_follows h us) fun _ => .pure _) (.pure _))

/-- A segment behind its colons. -/
theorem nextSegment_follows (inExpr : Bool) : Follows c (do return [← symbol "::", ← segment r inExpr] : Parser (List Tree))
    (do return [← symbol "::", ← segment r inExpr]) :=
  .bind (.symbol (by decide)) fun _ => .bind (segment_follows h inExpr) fun _ => .pure _

theorem nextSegment_takes (inExpr : Bool) : Takes (do return [← symbol "::", ← segment r inExpr] : Parser (List Tree)) := by
  have := takes_symbol (show "::".toList ≠ [] by decide)
  have := (segment_follows h inExpr).keeps
  infer_instance

theorem moreSegments_follows (inExpr : Bool) :
    Follows c (moreSegments (segment r inExpr)) (moreSegments (segment r inExpr)) := by
  have := nextSegment_takes h inExpr
  refine .bind (.repeatWhile ?_ rfl (nextSegment_follows h inExpr)) fun _ => .pure _
  exact .later (.symbol (by decide) (by decide)) (fun _ => length_of_colons) (.not (.group _))

theorem path_follows (inExpr : Bool) : Follows c (path r inExpr) (path r inExpr) :=
  .bind (.symbol? (by decide) (by decide)) fun _ => .bind (segment_follows h inExpr) fun _ =>
    .bind (moreSegments_follows h inExpr) fun _ => .pure _

theorem anyPath_follows (inExpr : Bool) : Follows c (anyPath r inExpr) (anyPath r inExpr) := by
  have := nextSegment_takes h inExpr
  refine .test (.symbol (by decide) (by decide)) (.bind (.symbol (by decide)) fun lt => .bind (h.type _) fun ty =>
    .bind (.word? _) fun as_ => .bind (.part (path_follows h false)) fun inner => .bind (.symbol (by decide)) fun gt =>
    .bind (.symbol (by decide)) fun colons => .bind (segment_follows h inExpr) fun first => ?_) (path_follows h inExpr)
  exact .bind (.repeatWhile (.symbol (by decide) (by decide)) rfl (nextSegment_follows h inExpr)) fun rest => .pure _

/-! ### Types -/

omit h in
theorem abi_follows : Follows c abi abi :=
  .bind (.word _) fun _ => .bind (.when .stringLiteral .literal) fun _ => .pure _

theorem fnType_follows (lifetimes : Tree) : Follows c (fnType r lifetimes) (fnType r lifetimes) :=
  .bind (.word? _) fun _ => .bind (.when (.word _) abi_follows) fun _ => .bind (.word _) fun _ => .bind (.group _ _) fun _ =>
    .bind (arrow_follows h false) fun _ => .pure _

theorem objectAfter_follows (first : Tree) : Follows c (objectAfter r first) (objectAfter r first) :=
  .bind (boundsAfter_follows h .object true first) fun _ => .pure _

theorem parenType_follows (plus : Bool) : Follows c (parenType r plus) (parenType r plus)
  | [] | .ident _ _ :: _ | .literal _ _ :: _ | .punct _ _ _ :: _ | .lifetime _ _ :: _ => .fail fun _ h => by cases h
  | .group d o content cl :: rest => by
    cases d with
    | paren =>
      refine .look (.put (List.suffix_cons _ _) (.ite rfl (.pure _) (.ite rfl (.bind .within fun _ => .pure _)
        (.ite rfl (.bind .within fun b => ?relaxed) (.bind .within fun elems us => ?types)))))
      case relaxed =>
        cases b with
        | none => exact .refuse
        | some b => exact objectAfter_follows h _
      case types =>
        split
        · refine .look (.ite ?_ ?_ (.pure _))
          · exact congrArg _ (Steady.symbol (by decide) (by decide) us)
          · split
            · exact objectAfter_follows h _ us
            · exact .pure _
        · exact .pure _
    | _ => exact .fail fun _ h => by cases h

theorem pathType_follows (plus : Bool) (lifetimes : Tree) :
    Follows c (pathType r plus lifetimes) (pathType r plus lifetimes) := by
  refine .bind (anyPath_follows h false) fun p => .ite (.pure _) fun ts => .look (.ite ?bang ?called (.ite ?more ?bounds (.pure _)))
  case bang =>
    have hbang : Steady c fun ts => Ahead.symbol "!" ts && !Ahead.symbol "!=" ts :=
      .and (.symbol (by decide) (by decide)) (.not (.symbol (by decide) (by decide)))
    exact congrArg (· && isPlainPath p) (hbang ts)
  case called => exact .bind (Follows.symbol (by decide) ts) fun _ => .bind .anyGroup fun _ => .pure _
  case more => exact congrArg (fun b => lifetimes.isPresent || (plus && b)) (Steady.symbol (by decide) (by decide) ts)
  case bounds =>
    exact .ite rfl (.bind (boundsAfter_follows h .object false _ ts) fun _ => .pure _) (.bind (.pure _) fun _ => .pure _)

theorem type_follows (plus : Bool) : Follows c (type r plus) (type r plus) := by
  refine .bind (.when (.word _) (boundLifetimes_follows h)) fun lifetimes ts => .look (.check ?_ (.ite (Steady.group _ ts)
    (parenType_follows h plus ts) (.ite (Steady.oneOf _ ts) (fnType_follows h lifetimes ts) (.ite ?_ (pathType_follows h plus lifetimes ts)
    (.ite (Steady.word _ ts) ?object (.ite (Steady.group _ ts) ?array (.ite (Steady.symbol (by decide) (by decide) ts) ?pointer
    (.ite (Steady.symbol (by decide) (by decide) ts) ?reference (.ite (Steady.symbol (by decide) (by decide) ts) ?never
    (.ite (Steady.word _ ts) ?anonymous (.ite (Steady.word _ ts) ?inferred (.ite (Steady.lifetime ts) ?bounds .refuse))))))))))))
  · have hhead : Steady c fun ts => !(Ahead.name ts || Ahead.oneOf ("fn" :: "unsafe" :: "extern" :: pathWords) ts) :=
      .not (.or .name (.oneOf _))
    exact congrArg (lifetimes.isPresent && ·) (hhead ts)
  · exact Steady.or (.or (.or .name (.oneOf _)) (.symbol (by decide) (by decide))) (.symbol (by decide) (by decide)) ts
  case object =>
    refine .bind (Follows.word _ ts) fun d => .bind (.symbol? (by decide) (by decide)) fun star =>
      .bind (bounds_follows h _ _) fun bs us => ?_
    exact .ite rfl (.fail fun _ h => by cases h) (.ite rfl (.passed _ _) (.pure _))
  case array =>
    cases ts with
    | nil => exact .fail fun _ h => by cases h
    | cons t ts =>
      cases t with
      | group d o content cl =>
        cases d with
        | bracket => exact .look (.put (List.suffix_cons _ _) .within)
        | _ => exact .fail fun _ h => by cases h
      | _ => exact .fail fun _ h => by cases h
  case pointer =>
    refine .bind (Follows.symbol (by decide) ts) fun star us => .look (.ite (Steady.word _ us)
      (.bind (Follows.word _ us) fun m => ?_) (.bind (Follows.word _ us) fun m => ?_))
    all_goals exact .bind (h.type _) fun _ => .pure _
  case reference =>
    exact .bind (Follows.symbol (by decide) ts) fun amp => .bind .lifetime? fun l => .bind (.word? _) fun m =>
      .bind (h.type _) fun _ => .pure _
  case never => exact .bind (Follows.symbol (by decide) ts) fun _ => .pure _
  case anonymous =>
    exact .bind (Follows.word _ ts) fun i => .bind (bounds_follows h _ _) fun bs => .ite (.pure _) .refuse
  case inferred => exact .bind (Follows.anyWord ts) fun _ => .pure _
  case bounds => exact .bind (bounds_follows h _ _ ts) fun bs => .ite (.pure _) .refuse

/-! ### Parameters and blocks -/

omit h in
theorem colonBounds_follows {stop : List TokenTree → Bool} {p : Parser Tree} (hstop : ∀ ts ≠ [], stop (ts ++ c.tokens) = stop ts)
    (hnil : stop [] = false) (hneeds : ∀ x, p [] ≠ .ok x) (hp : Follows c p p) :
    Follows c (colonBounds stop p) (colonBounds stop p) :=
  .bind (.symbol? (by decide) (by decide)) fun _ => .ite (.pure _)
    (.bind (.joined hstop hnil hneeds (by decide) (by decide) hp) fun _ => .pure _)

omit h in
theorem outerAttrs_follows : Follows c (outerAttrs r) (outerAttrs r) := by
  have : Takes (outerAttr r) := by
    have := takes_symbol (show "#".toList ≠ [] by decide)
    unfold outerAttr
    infer_instance
  exact .bind (.repeatWhile (.symbol (by decide) (by decide)) rfl
    (.bind (.symbol (by decide)) fun _ => .bind (.group _ _) fun _ => .pure _)) fun _ => .pure _

theorem paramAfter_follows (attrs : Tree) : Follows c (paramAfter r attrs) (paramAfter r attrs) := by
  have hend {s : String} {ts : List TokenTree} (hts : ts ≠ []) (hs : s.toList ≠ []) (hcomma : ',' ∉ s.toList) :
      (Ahead.symbol "," (ts ++ c.tokens) || Ahead.symbol s (ts ++ c.tokens)) = (Ahead.symbol "," ts || Ahead.symbol s ts) := by
    rw [comma_ahead hts, show Ahead.symbol s (ts ++ c.tokens) = _ from Steady.symbol hs hcomma ts]
  refine fun ts => .look (.ite (Steady.lifetime ts) ?lifetime (.ite (Steady.word _ ts) ?const ?type))
  case lifetime =>
    refine .bind (Follows.lifetime ts) fun l => .bind (colonBounds_follows (fun us hus => ?_) rfl (fun _ h => by cases h) .lifetime)
      fun _ => .pure _
    exact hend hus (by decide) (by decide)
  case const =>
    exact .bind (Follows.word _ ts) fun _ => .bind .name fun n => .bind (.symbol (by decide)) fun colon =>
      .bind (h.type _) fun ty => .bind (.symbol? (by decide) (by decide)) fun eq =>
      .bind (.part (constArgument_follows h)) fun _ => .pure _
  case type =>
    refine .bind (Follows.name ts) fun n => .bind (colonBounds_follows (fun us hus => ?_) rfl (bound_needs h _) (bound_follows h _))
      fun _ => .bind (.symbol? (by decide) (by decide)) fun eq => .bind (.part (h.type _)) fun _ => .pure _
    rw [hend hus (by decide) (by decide), show Ahead.symbol "=" (us ++ c.tokens) = _ from Steady.symbol (by decide) (by decide) us]

theorem genericParam_follows : Follows c (genericParam r) (genericParam r) :=
  .bind outerAttrs_follows fun attrs => paramAfter_follows h attrs

omit h in
theorem block_follows (inner : Bool) : Follows c (block r inner) (block r inner) :=
  .bind (.group _ _) fun _ => .pure _

omit h in
theorem path_needs (x : Tree × List TokenTree) : path r false [] ≠ .ok x :=
  fun hx => by cases hx

end

/-! ### All rules together -/

/-- However deep rules may be nested, they read in front of a comma what may stand in a path. -/
theorem run_follows (k : Nat) : FollowsTypes c (Grammar.run k) := by
  induction k with
  | zero => exact ⟨.refuse, fun _ => .refuse, .refuse, fun _ => .refuse, fun _ h => by cases h⟩
  | succ k ih =>
    exact ⟨path_follows ih false, type_follows ih, genericParam_follows ih, block_follows, path_needs⟩

theorem tokenCount_append (ts us : List TokenTree) : tokenCount (ts ++ us) = tokenCount ts + tokenCount us := by
  induction ts with
  | nil => exact (Nat.zero_add _).symm
  | cons t ts ih =>
    rw [List.cons_append, tokenCount_cons, tokenCount_cons, ih]
    omega

/-- What all of some tokens are as a path is read of them, and nothing is left. -/
theorem path_of_parsePath {ts : List TokenTree} {p : Tree} (h : Grammar.parsePath ts = .ok p) :
    path Grammar.reach false ts = .ok (p, []) := by
  unfold Grammar.parsePath Grammar.parseWith at h
  split at h
  · rename_i hpath
    exact Except.ok.inj h ▸ hpath
  · cases h
  · cases h

/-- A path that some tokens are is also read in front of a comma. -/
theorem path_before_comma {ts : List TokenTree} {p : Tree} (h : Grammar.parsePath ts = .ok p) (c : Comma) :
    path Grammar.reach false (ts ++ c.tokens) = .ok (p, c.tokens) := by
  have hrule : ∀ us, path Grammar.reach false us = Grammar.reach .typePath us :=
    fun us => (congrFun (Grammar.reach_eq .typePath) us).symm
  have hdepth : Grammar.depth ts ≤ Grammar.depth (ts ++ c.tokens) := by
    rw [Grammar.depth, Grammar.depth, tokenCount_append]
    omega
  rw [hrule]
  change Grammar.run (Grammar.depth (ts ++ c.tokens)) .typePath (ts ++ c.tokens) = .ok (p, [] ++ c.tokens)
  refine ((run_follows _).path ts).reads ?_
  rw [← Grammar.reach_eq_run .typePath hdepth, ← hrule]
  exact path_of_parsePath h

end CallProbe.Source.Parse
