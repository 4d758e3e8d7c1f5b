import CallProbe.Proofs.Behaviour.Wrapped

/-! # Wrapped code does the same

A body and the body after wrapping are evaluated side by side, by one and the same program around their calls.
`wrapBlock_keeps_behaviour` says that they end alike and make the same calls, and that all that is new is a guard around
each call that was let through, made before anything of the call is evaluated and dropped whichever way it ends. What is
let through is what the walk asks about: `mem_visits_of_callAt` ties the places of calls to the walk. -/

namespace CallProbe.Behaviour

open Source Call Probe Probe.CallOptions

/-! ### Visited calls are asked about -/

theorem mem_visits_self {t : Tree} (h : isAsked t = true) : t ∈ (visits t).list := by
  rw [visits_list, h]
  simp

/-- The calls of what is awaited are calls of the whole. -/
theorem mem_visits_of_awaited {t base c : Tree} (h : awaited? t = some base) (hc : c ∈ (visits base).list) :
    c ∈ (visits t).list := by
  obtain ⟨hb, attrs, dot, await, rfl⟩ := awaited?_eq_some h
  cases hr : runtimeCall? base with
  | none =>
    have hgen : generatedCall? (.node .awaitExpr [attrs, base, dot, await]) = none := hr
    have hcall : callOf? (.node .awaitExpr [attrs, base, dot, await]) = none := by
      rw [← Option.isNone_iff_eq_none, ← Option.not_isSome, callOf?_isSome]
      simpa [isOwnCall, hr, calls?, withoutAwait] using hb
    refine mem_visits_of_parts (p := base) ?_ hc
    rw [(Exchange.children (hasOwnOrder_of_kind rfl) rfl hgen (fun _ => hcall) []).parts_eq]
    simp
  | some name =>
    obtain ⟨a, callee, args, rfl⟩ := callExpr_of_runtimeCall? hr
    have hgen : generatedCall? (.node .awaitExpr [attrs, .node .callExpr [a, callee, args], dot, await]) = some name := hr
    have hgen' : generatedCall? (.node .callExpr [a, callee, args]) = some name := hr
    have hparts : parts (.node .awaitExpr [attrs, .node .callExpr [a, callee, args], dot, await]) =
        parts (.node .callExpr [a, callee, args]) := by
      cases hh : holdsBody name with
      | false => exact (Exchange.hidden hgen hh).parts_eq.trans (Exchange.hidden hgen' hh).parts_eq.symm
      | true => exact (Exchange.awaitedBody attrs dot await hr hh []).parts_eq.trans (Exchange.body hr hh []).parts_eq.symm
    rw [visits_list, hparts]
    rw [visits_list] at hc
    simpa [isAsked, hgen, hgen'] using hc

theorem mem_visits_of_outer {t call c : Tree} (h : call ∈ outer t) (hc : c ∈ (visits call).list) :
    c ∈ (visits t).list := by
  rw [outer_eq] at h
  split at h
  · rw [List.mem_singleton.mp h] at hc
    exact hc
  · rename_i hcall
    obtain ⟨p, hp, hmem⟩ := List.mem_flatMap.mp h
    have := sizeOf_subs hp
    have hpart := mem_visits_of_outer hmem hc
    rw [subs] at hp
    split at hp
    · rename_i base hb
      rw [List.mem_singleton.mp hp] at hpart
      exact mem_visits_of_awaited hb hpart
    · rw [runtimeCall?_of_not_call (by simpa using hcall)] at hp
      exact mem_visits_of_parts hp hpart
termination_by sizeOf t

theorem mem_visits_of_peel {t c : Tree} (hc : c ∈ (visits (peel t).2).list) : c ∈ (visits t).list := by
  cases hf : finishing? t with
  | none =>
    rw [peel_of_none hf] at hc
    exact hc
  | some f =>
    have := sizeOf_finishing hf
    obtain ⟨cs, rfl, hr, -, hlast⟩ := lastArgOf_of_finishing hf
    rw [peel_of_some hf] at hc
    rw [visits_finish hr, hlast]
    simpa using mem_visits_of_peel hc
termination_by sizeOf t

theorem mem_of_mem_everySecond {ts : List Tree} {a : Tree} (h : a ∈ Tree.elements.everySecond ts) : a ∈ ts := by
  fun_induction Tree.elements.everySecond ts with
  | case1 => cases h
  | case2 t => exact h
  | case3 t sep rest ih =>
    rcases List.mem_cons.mp h with rfl | h
    · exact List.mem_cons_self
    · exact List.mem_cons_of_mem _ (List.mem_cons_of_mem _ (ih h))

theorem list_of_mem_argsOf {args a : Tree} (h : a ∈ argsOf args) :
    ∃ d o ts c, args = .group d o [.node .list ts] c ∧ a ∈ Tree.elements.everySecond ts := by
  rw [argsOf.eq_def] at h
  split at h
  · rw [Tree.elements.eq_def] at h
    split at h
    · exact ⟨_, _, _, _, rfl, h⟩
    · cases h
  · cases h

theorem parts_list (ts : List Tree) : parts (.node .list ts) = ts := CallOptions.parts_of_isOpen rfl

theorem mem_visits_of_argsOf {args a c : Tree} (h : a ∈ argsOf args) (hc : c ∈ (visits a).list) :
    c ∈ (visits args).list := by
  obtain ⟨d, o, ts, e, rfl, ha⟩ := list_of_mem_argsOf h
  have hlist : c ∈ (visits (.node .list ts)).list :=
    mem_visits_of_parts (by rw [parts_list]; exact mem_of_mem_everySecond ha) hc
  exact mem_visits_of_parts (p := .node .list ts) (by simp [parts]) hlist

/-- All children of a call that no probe has put there are visited, also if it is awaited. -/
theorem parts_of_own {t : Tree} (hcall : isCall t = true) (hr : runtimeCall? t = none) :
    parts t = (withoutAwait t).children := by
  fun_cases isCall t with
  | case1 attrs base dot await =>
    rw [isCall] at hcall
    simp only [isOwnCall, Bool.and_eq_true, Option.isNone_iff_eq_none] at hcall
    have hgen : generatedCall? (.node .awaitExpr [attrs, base, dot, await]) = none := (generatedCall?_eq _).trans hcall.2
    have hsome : (callOf? (.node .awaitExpr [attrs, base, dot, await])).isSome = true := by
      rw [callOf?_isSome]
      exact hcall.1
    obtain ⟨k, cs, rfl, -⟩ := kind_of_ofCall? hcall.1
    exact (Exchange.awaited hgen hsome []).parts_eq
  | case2 t hawait =>
    rw [isCall] at hcall
    · obtain ⟨k, cs, rfl, hk⟩ := kind_of_ofCall? hcall
      have hne : k ≠ .awaitExpr := by rcases hk with rfl | rfl <;> decide
      have hgen : generatedCall? (.node k cs) = none := by rw [generatedCall?_eq, withoutAwait_of_kind hne, hr]
      rw [withoutAwait_of_kind hne]
      refine (Exchange.children ?_ ?_ hgen (fun ha => absurd ha hne) []).parts_eq
      · exact hasOwnOrder_of_kind (by rcases hk with rfl | rfl <;> rfl)
      · rcases hk with rfl | rfl <;> rfl
    · exact hawait

theorem mem_operandTrees {t a : Tree} (h : a ∈ operandTrees t) : a ∈ t.children ∨ ∃ args ∈ t.children, a ∈ argsOf args := by
  rw [operandTrees.eq_def] at h
  split at h
  · rcases List.mem_cons.mp h with rfl | h
    · exact .inl (by simp [Tree.children])
    · exact .inr ⟨_, by simp [Tree.children], h⟩
  · rcases List.mem_cons.mp h with rfl | h
    · exact .inl (by simp [Tree.children])
    · exact .inr ⟨_, by simp [Tree.children], h⟩
  · cases h

theorem mem_lastArg_of_lastOnly {ts : List Tree} {a : Tree} (h : (a, true) ∈ lastOnly (Tree.elements.everySecond ts)) :
    a ∈ lastArg ts := by
  fun_induction lastArg ts with
  | case1 => cases h
  | case2 t => simpa [Tree.elements.everySecond, lastOnly] using h
  | case3 t sep => simpa [Tree.elements.everySecond, lastOnly] using h
  | case4 t sep rest hrest ih =>
    rw [Tree.elements.everySecond, lastOnly_cons t (everySecond_ne_nil hrest)] at h
    exact ih (by simpa using h)

/-- The calls of an operand that is visited are calls of the whole. -/
theorem mem_visits_of_operand {t a c : Tree} (hcall : isCall t = true) (h : (a, true) ∈ operandsOf t)
    (hc : c ∈ (visits a).list) : c ∈ (visits t).list := by
  rw [operandsOf] at h
  cases hr : runtimeCall? t with
  | none =>
    have ha : a ∈ operandTrees (withoutAwait t) := by simpa [hr] using h
    have hparts := parts_of_own hcall hr
    rcases mem_operandTrees ha with ha | ⟨args, hargs, ha⟩
    · exact mem_visits_of_parts (hparts ▸ ha) hc
    · exact mem_visits_of_parts (hparts ▸ hargs) (mem_visits_of_argsOf ha hc)
  | some name =>
    obtain ⟨attrs, callee, args, rfl⟩ := callExpr_of_runtimeCall? hr
    cases hb : holdsBody name with
    | false => simp [hr, operandTrees, hb] at h
    | true =>
      have hlast : (a, true) ∈ lastOnly (argsOf args) := by simpa [hr, operandTrees, hb] using h
      have hne : argsOf args ≠ [] := by
        intro hnil
        rw [hnil] at hlast
        cases hlast
      obtain ⟨first, hfirst⟩ := List.exists_mem_of_ne_nil _ hne
      obtain ⟨d, o, ts, e, rfl, -⟩ := list_of_mem_argsOf hfirst
      refine mem_visits_of_parts (p := a) ?_ hc
      rw [(Exchange.body hr hb []).parts_eq]
      exact mem_lastArg_of_lastOnly hlast

/-- What wrapping asks about at a visited place, it asks about in the walk. -/
theorem mem_visits_of_callAt {os : List (Tree × Bool)} {p : Place} {t c : Tree} (h : callAt os p = some (t, true))
    (hc : c ∈ (visits t).list) : ∃ o ∈ os, o.2 = true ∧ c ∈ (visits o.1).list := by
  fun_induction callAt os p with
  | case1 => cases h
  | case2 os step =>
    obtain ⟨o, ho, hmem, hvisited⟩ := callIn_eq_some h
    exact ⟨o, ho, hvisited.symm, mem_visits_of_outer hmem hc⟩
  | case3 os step next rest ih =>
    obtain ⟨call, hstep, hcall⟩ := Option.bind_eq_some_iff.mp h
    obtain ⟨o, ho, hmem, hvisited⟩ := callIn_eq_some hstep
    obtain ⟨a, ha, hav, hca⟩ := ih call hcall
    obtain ⟨b, hb, rfl⟩ := List.mem_map.mp ha
    simp only [Bool.and_eq_true] at hav
    have hb' : (b.1, true) ∈ operandsOf (peel call.1).2 := by
      rw [← hav.2]
      exact hb
    have hpeel := mem_visits_of_operand (isCall_peel (isCall_of_mem_outer hmem)) hb' hca
    exact ⟨o, ho, hvisited.symm.trans hav.1, mem_visits_of_outer hmem (mem_visits_of_peel hpeel)⟩

/-! ### Code that was not probed before -/

theorem namesNoRuntime_outer {t call : Tree} (hr : namesNoRuntime t = true) (h : call ∈ outer t) :
    namesNoRuntime call = true := by
  rw [outer_eq] at h
  split at h
  · rw [List.mem_singleton.mp h]
    exact hr
  · obtain ⟨p, hp, hmem⟩ := List.mem_flatMap.mp h
    have := sizeOf_subs hp
    refine namesNoRuntime_outer ?_ hmem
    rw [subs] at hp
    split at hp
    · rename_i base hb
      obtain ⟨-, attrs, dot, await, rfl⟩ := awaited?_eq_some hb
      rw [List.mem_singleton.mp hp]
      exact everyNode_children hr base (by simp)
    · rw [runtimeCall?_of_namesNoRuntime hr] at hp
      exact everyNode_parts hr hp
termination_by sizeOf t

theorem namesNoRuntime_argsOf {args a : Tree} (hr : namesNoRuntime args = true) (h : a ∈ argsOf args) :
    namesNoRuntime a = true := by
  obtain ⟨d, o, ts, c, rfl, ha⟩ := list_of_mem_argsOf h
  have hlist := everyNode_content hr (.node .list ts) (by simp)
  exact everyNode_children hlist a (mem_of_mem_everySecond ha)

theorem namesNoRuntime_withoutAwait {t : Tree} (hr : namesNoRuntime t = true) : namesNoRuntime (withoutAwait t) = true := by
  fun_cases withoutAwait t with
  | case1 attrs base dot await => exact everyNode_children hr base (by simp)
  | case2 => exact hr

theorem namesNoRuntime_operand {t : Tree} {o : Tree × Bool} (hr : namesNoRuntime t = true) (h : o ∈ operandsOf t) :
    namesNoRuntime o.1 = true := by
  rw [operandsOf, runtimeCall?_of_namesNoRuntime hr] at h
  obtain ⟨a, ha, rfl⟩ := List.mem_map.mp h
  have hr' := namesNoRuntime_withoutAwait hr
  have hchildren : ∀ c ∈ (withoutAwait t).children, namesNoRuntime c = true := by
    intro c hc
    generalize withoutAwait t = u at hr' hc
    cases u with
    | node k cs => exact everyNode_children hr' c hc
    | _ => cases hc
  rcases mem_operandTrees ha with ha | ⟨args, hargs, ha⟩
  · exact hchildren a ha
  · exact namesNoRuntime_argsOf (hchildren args hargs) ha

theorem peel_of_namesNoRuntime {t : Tree} (hr : namesNoRuntime t = true) : peel t = ([], t) :=
  peel_of_none (finishing?_of_runtimeCall? (by rw [runtimeCall?_of_namesNoRuntime hr]; simp))

theorem namesNoRuntime_callAt {os : List (Tree × Bool)} (hos : ∀ o ∈ os, namesNoRuntime o.1 = true) {p : Place}
    {call : Tree × Bool} (h : callAt os p = some call) : namesNoRuntime call.1 = true := by
  fun_induction callAt os p with
  | case1 => cases h
  | case2 os step =>
    obtain ⟨o, ho, hmem, -⟩ := callIn_eq_some h
    exact namesNoRuntime_outer (hos o ho) hmem
  | case3 os step next rest ih =>
    obtain ⟨c, hstep, hcall⟩ := Option.bind_eq_some_iff.mp h
    obtain ⟨o, ho, hmem, -⟩ := callIn_eq_some hstep
    have hc := namesNoRuntime_outer (hos o ho) hmem
    refine ih c (fun a ha => ?_) hcall
    rw [inside, peel_of_namesNoRuntime hc] at ha
    obtain ⟨b, hb, rfl⟩ := List.mem_map.mp ha
    have hoperand := namesNoRuntime_operand hc hb
    exact hoperand

/-- No call of a body that was not probed before has a guard. -/
theorem guardCount_of_namesNoRuntime {body : Tree} (hr : namesNoRuntime body = true) (p : Place) :
    (codeOf body).guardCount p = 0 := by
  rw [Code.guardCount, codeOf]
  cases hcall : callAt [(body, true)] p with
  | none => rfl
  | some call =>
    have hc := namesNoRuntime_callAt (by simpa using hr) hcall
    simp [viewOf, peel_of_namesNoRuntime hc]

/-! ### Evaluation of wrapped code -/

/-- Whether the wrapper called on a site reads as one expression, if it reads as expressions at all. A wrapper that reads
    as more leaves `finish` with more than two arguments. -/
def IsOneArgument (wrapper : Tree) : Prop := ∀ (site : Site) args, guardArgs wrapper site.toStatic = .ok args → args.length = 1

theorem isOneArgument_of_isTurbofish {wrapper : Tree} (h : isTurbofish wrapper) : IsOneArgument wrapper := by
  intro site args hargs
  obtain h | ⟨pos, rfl⟩ := h
  · rw [guardArgs, if_pos h] at hargs
    cases hargs
    rfl
  · rw [guardArgs_try] at hargs
    cases hargs

theorem length_guardOf (options : CallOptions) (function : String) {call : Tree} (hg : HasGuard options function call) :
    (guardOf options function call).toList.length = if options.isWrapped function call then 1 else 0 := by
  rw [guardOf, isWrapped]
  cases hs : site? function call with
  | none => simp [isAsked_of_no_site hs]
  | some site =>
    obtain ⟨hasked, hof⟩ := isAsked_of_site hs
    cases ha : options.accepts site.target with
    | false => simp [acceptsCall, hof, ha]
    | true =>
      obtain ⟨guard, hguard⟩ := hg site hs ha
      simp [acceptsCall, hasked, hof, ha, hguard, Except.toOption]

/-- If nothing stops wrapping, every visited call that is let through gets its guard. -/
theorem hasGuard_of_callAt {options : CallOptions} {function : String} {body : Tree} (hw : IsOneArgument options.wrapper)
    (hh : options.haltOf function (visits body) = none) {p : Place} {t : Tree}
    (hcall : callAt [(body, true)] p = some (t, true)) : HasGuard options function (peel t).2 := by
  intro site hsite hacc
  obtain ⟨hasked, hof⟩ := isAsked_of_site hsite
  obtain ⟨o, ho, -, hmem⟩ := mem_visits_of_callAt hcall (mem_visits_of_peel (mem_visits_self hasked))
  rw [List.mem_singleton.mp ho] at hmem
  obtain ⟨args, hargs⟩ := guardArgs_of_guardHalt hof hacc (haltOf_eq_none.mp hh _ hmem).2
  obtain ⟨guard, rfl⟩ := List.length_eq_one_iff.mp (hw site args hargs)
  exact ⟨guard, hargs⟩

end CallProbe.Behaviour

namespace CallProbe.Probe.CallOptions

open Source Call Behaviour

/-- Whether the call at a place of a body is visited, asked about and let through. -/
def isWrappedAt (options : CallOptions) (name : String) (body : Tree) (p : Place) : Bool :=
  (callAt [(body, true)] p).any fun call => call.2 && options.isWrapped name (peel call.1).2

theorem guardCount_wrapTree {options : CallOptions} {name : String} {body : Tree}
    (hg : ∀ q t, callAt [(body, true)] q = some (t, true) → HasGuard options name (peel t).2) (p : Place) :
    (codeOf (options.wrapTree name body)).guardCount p =
      (codeOf body).guardCount p + if options.isWrappedAt name body p then 1 else 0 := by
  rw [codeOf_wrapTree options name hg, isWrappedAt]
  cases hcall : callAt [(body, true)] p with
  | none => simp [Code.guardCount, Code.guardWith, codeOf, hcall]
  | some call =>
    obtain ⟨t, visited⟩ := call
    rw [guardCount_guardWith _ _ (by simp [codeOf, hcall]), guardAt, hcall]
    cases visited with
    | false => rfl
    | true =>
      congr 1
      exact length_guardOf options name (hg p t hcall)

/-- Wrapping changes nothing that a function does, whatever its code does between calls and whatever calls do. The
    wrapped body comes to its end just if the body does, with the same state and the same value or exit, and makes the
    same calls with the same values. Of all that happens, only the events of one more guard are new, next to each
    evaluation of a call that was let through, whether it ends by a value or by an exit: guards are made and dropped like
    brackets, and each time the evaluation of a call begins, just the guards that were there are made once, and the new one
    if the call was let through. -/
theorem wrapBlock_keeps_behaviour (options : CallOptions) (name : String) {body block : Tree} {count : Nat}
    (hw : IsOneArgument options.wrapper) (h : options.wrapBlock name body = ((block, count), none)) {σ ν ε κ : Type}
    (L : Language σ ν ε κ) (n : Nat) (s : σ) :
    L.evalBody block n s = (L.evalBody body n s).map (Run.withGuard (guardAt options name body)) ∧
    ∀ r r', L.evalBody body n s = some r → L.evalBody block n s = some r' →
      r'.outcome = r.outcome ∧ r'.state = r.state ∧
      r'.log.filterMap Event.made? = r.log.filterMap Event.made? ∧
      r'.log = r.log.flatMap (Event.guardWith (guardAt options name body)) ∧
      Balanced (r'.log.filter Event.isGuard) ∧
      (∀ p, r'.log.countP (Event.isBefore p) =
        ((codeOf body).guardCount p + if options.isWrappedAt name body p then 1 else 0) * r.log.countP (Event.begins p)) ∧
      (namesNoRuntime body = true → ∀ p, (codeOf body).guardCount p = 0) := by
  have hblock := wrapBlock_eq options name body
  rw [h] at hblock
  simp only [Prod.mk.injEq] at hblock
  obtain ⟨⟨rfl, -⟩, hhalt⟩ := hblock
  have hguard : ∀ q t, callAt [(body, true)] q = some (t, true) → HasGuard options name (peel t).2 :=
    fun q t hq => hasGuard_of_callAt hw hhalt.symm hq
  -- The frame of the body is what it was, and each place has one more guard if its call was wrapped.
  have heval : L.evalBody (options.wrapTree name body) n s =
      (L.evalBody body n s).map (Run.withGuard (guardAt options name body)) := by
    rw [Language.evalBody, codeOf_wrapTree options name hguard, (frame_wrapTree options name body).1, eval_guardWith]
    rfl
  refine ⟨heval, fun r r' hr hr' => ?_⟩
  have hbalanced := balanced_eval L hr'
  have hbefore := before_eval L hr'
  rw [heval, hr] at hr'
  cases hr'
  refine ⟨rfl, rfl, filterMap_withGuard _ (fun _ _ => rfl) (fun _ _ => rfl) _, rfl, hbalanced, fun p => ?_,
    guardCount_of_namesNoRuntime⟩
  rw [hbefore p, guardCount_wrapTree hguard]
  exact congrArg _ (begins_withGuard _ p r.log)

/-- The body `{ run(a().b()); }`. -/
def chainBody : Tree :=
  let chain : Tree := .node .methodCallExpr [.noAttrs, Make.call (Make.nameExpr "a") [], Make.symbol ".", Make.word "b",
    .absent, Make.parens [.list []]]
  Make.block [.node .exprStmt [Make.call (Make.nameExpr "run") [chain], Make.symbol ";"]]

/-- A program whose code does nothing but evaluate its first call, and whose second call panics. -/
def secondCallPanics : Language Nat Nat String Unit where
  start p j operand s := if operand.kind? = some .pathExpr then .done s (.ok 0) else .enter (p ++ [(j, 0)]) s ()
  apply _ _ values s := .done (s + 1) (if s = 1 then .error "panic" else .ok values.length)
  resume _ s outcome := .done s outcome

/-- Options that let all calls through but those of `run`. -/
def allButRun : CallOptions :=
  { wrapper := Make.path false ["w"], filter := .blacklist [⟨"run", .path ["run"]⟩] }

/-- In `{ run(a().b()); }`, the guard of the method call is dropped although it panics, and `run`, whose evaluation has
    begun by then, has none. -/
theorem wrapBlock_keeps_behaviour_panicking : ∃ block count r r',
    allButRun.wrapBlock "f" chainBody = ((block, count), none) ∧
    secondCallPanics.evalBody chainBody 9 0 = some r ∧ secondCallPanics.evalBody block 9 0 = some r' ∧
    r'.outcome = r.outcome ∧ r'.state = 2 ∧ Balanced (r'.log.filter Event.isGuard) ∧
    r.log.countP (Event.begins [(0, 0)]) = 1 ∧ r'.log.countP (Event.isBefore [(0, 0)]) = 0 ∧
    r'.log.countP (Event.isBefore [(0, 0), (1, 0)]) = 1 := by
  have hnone : (allButRun.wrapBlock "f" chainBody).2 = none := by
    rw [← Option.isNone_iff_eq_none]
    decide +kernel
  obtain ⟨⟨block, count⟩, hwrapped⟩ : ∃ r, (allButRun.wrapBlock "f" chainBody).1 = r := ⟨_, rfl⟩
  have hblock : allButRun.wrapBlock "f" chainBody = ((block, count), none) := Prod.ext hwrapped hnone
  have hrun : (secondCallPanics.evalBody chainBody 9 0).map (fun r => (r.state, r.log.countP (Event.begins [(0, 0)]),
      r.log.countP (Event.begins [(0, 0), (1, 0)]))) = some (2, 1, 1) := by decide +kernel
  obtain ⟨r, hr, hvalues⟩ := Option.map_eq_some_iff.mp hrun
  simp only [Prod.mk.injEq] at hvalues
  obtain ⟨hstate, hfirst, hsecond⟩ := hvalues
  obtain ⟨heval, hsame⟩ := wrapBlock_keeps_behaviour allButRun "f" (isOneArgument_of_isTurbofish (.inl rfl)) hblock
    secondCallPanics 9 0
  rw [hr] at heval
  obtain ⟨houtcome, hstate', -, -, hbalanced, hcount, hunprobed⟩ := hsame r _ hr heval
  have hzero := hunprobed rfl
  have hrejected : allButRun.isWrappedAt "f" chainBody [(0, 0)] = false := by decide +kernel
  have haccepted : allButRun.isWrappedAt "f" chainBody [(0, 0), (1, 0)] = true := by decide +kernel
  refine ⟨block, count, r, _, hblock, hr, heval, houtcome, hstate'.trans hstate, hbalanced, hfirst, ?_, ?_⟩
  · rw [hcount, hzero, hrejected]
    simp
  · rw [hcount, hzero, haccepted, hsecond]
    rfl

end CallProbe.Probe.CallOptions
