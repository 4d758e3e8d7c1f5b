import CallProbe.Proofs.Behaviour.Places
import CallProbe.Proofs.Wrap.Stacked

/-! # The calls of wrapped code

Wrapping leaves every call in its place. `frame_wrapTree` says that the code between calls is as it was, `outer_wrapTree`
and `operandsOf_wrapInside` that the calls in it are the same ones, wrapped, and `peel_wrapTree` that what is new around a
call is one guard inside of those that were there. Together they give `codeOf_wrapTree`: what evaluation needs to know of
a wrapped body is what it knew of the body, with one more guard around some calls. -/

namespace CallProbe.Behaviour

open Source Call Probe Probe.CallOptions

section
variable (options : CallOptions) (function : String)

/-! ### Calls stay calls -/

/-- The number of children of a call. -/
def callArity : Kind → Option Nat
  | .callExpr => some 3
  | .methodCallExpr => some 6
  | _ => none

theorem ofCall?_isSome (k : Kind) (cs : List Tree) :
    (Target.ofCall? (.node k cs)).isSome = decide (callArity k = some cs.length) := by
  by_cases hc : k = .callExpr
  · subst hc
    obtain _ | ⟨_, _ | ⟨_, _ | ⟨_, _ | ⟨_, rest⟩⟩⟩⟩ := cs
    iterate 4 rfl
    simp [Target.ofCall?, callArity]
  by_cases hm : k = .methodCallExpr
  · subst hm
    obtain _ | ⟨_, _ | ⟨_, _ | ⟨_, _ | ⟨_, _ | ⟨_, _ | ⟨_, _ | ⟨_, rest⟩⟩⟩⟩⟩⟩⟩ := cs
    iterate 7 rfl
    simp [Target.ofCall?, callArity]
  · rw [ofCall?_of_kind hc hm]
    cases k <;> first | rfl | exact absurd rfl hc | exact absurd rfl hm

theorem kind_of_ofCall? {t : Tree} (h : (Target.ofCall? t).isSome = true) :
    ∃ k cs, t = .node k cs ∧ (k = .callExpr ∨ k = .methodCallExpr) := by
  unfold Target.ofCall? at h
  split at h
  · exact ⟨_, _, rfl, .inl rfl⟩
  · exact ⟨_, _, rfl, .inr rfl⟩
  · cases h

theorem length_withLastArgOf (new cs : List Tree) : (withLastArgOf new cs).length = cs.length := by
  fun_cases withLastArgOf new cs <;> rfl

theorem runtimeCall?_args (attrs callee args args' : Tree) :
    runtimeCall? (.node .callExpr [attrs, callee, args]) = runtimeCall? (.node .callExpr [attrs, callee, args']) := by
  cases callee with
  | node k ls =>
    by_cases hk : k = .pathExpr
    · subst hk
      match ls with
      | [_, _] | [] | [_] | _ :: _ :: _ :: _ => rfl
    · simp [runtimeCall?, hk]
  | _ => rfl

theorem runtimeCall?_withLastArgOf (new cs : List Tree) :
    runtimeCall? (.node .callExpr (withLastArgOf new cs)) = runtimeCall? (.node .callExpr cs) := by
  fun_cases withLastArgOf new cs with
  | case1 attrs callee d o args c => exact runtimeCall?_args ..
  | case2 => rfl

/-- What becomes of a call of the runtime: only its last argument can change. -/
theorem wrapInside_runtime {cs : List Tree} {name : List String} (h : runtimeCall? (.node .callExpr cs) = some name) :
    options.wrapInside function (.node .callExpr cs) = .node .callExpr
      (if holdsBody name then withLastArgOf ((lastArgOf cs).map (options.wrapTree function)) cs else cs) := by
  cases hb : holdsBody name with
  | false => exact wrapInside_of_exchange (.hidden h hb)
  | true => exact wrapInside_of_exchange (.body h hb _)

/-- Wrapping the calls inside a tree keeps whether it is a call, and which one of the runtime. -/
theorem wrapInside_call_shape (t : Tree) : runtimeCall? (options.wrapInside function t) = runtimeCall? t ∧
    (Target.ofCall? (options.wrapInside function t)).isSome = (Target.ofCall? t).isSome := by
  cases t with
  | node k cs =>
    by_cases hk : k = .callExpr ∨ k = .methodCallExpr
    · cases hr : runtimeCall? (.node k cs) with
      | some name =>
        have hcall : k = .callExpr := by
          rcases hk with rfl | rfl
          · rfl
          · simp [runtimeCall?] at hr
        subst hcall
        rw [wrapInside_runtime options function hr]
        split
        · rw [runtimeCall?_withLastArgOf, ofCall?_isSome, ofCall?_isSome, length_withLastArgOf]
          exact ⟨hr, rfl⟩
        · exact ⟨hr, rfl⟩
      | none =>
        rw [wrapInside_own options function hk hr, runtimeCall?_map, ofCall?_isSome, ofCall?_isSome, List.length_map]
        exact ⟨hr, rfl⟩
    · obtain ⟨cs', hcs⟩ : ∃ cs', options.wrapInside function (.node k cs) = .node k cs' :=
        kind?_eq_some (kind?_withParts (.node k cs) _)
      rw [not_or] at hk
      rw [hcs, ofCall?_of_kind hk.1 hk.2, ofCall?_of_kind hk.1 hk.2]
      exact ⟨by simp [runtimeCall?, hk.1], rfl⟩
  | _ => exact ⟨rfl, rfl⟩

/-- What is not a call of the function's own does not become one. -/
theorem isOwnCall_wrapTree {t : Tree} (h : isOwnCall t = false) : isOwnCall (options.wrapTree function t) = false := by
  cases hw : options.isWrapped function t with
  | true =>
    obtain ⟨site, -, hs⟩ := options.wrapTree_of_isWrapped function hw
    rw [hs]
    rfl
  | false =>
    obtain ⟨hr, hc⟩ := wrapInside_call_shape options function t
    rw [wrapTree_of_not_isWrapped _ _ hw, isOwnCall, hr, hc]
    exact h

/-! ### Parts stay in their places -/

theorem wrapTree_runtime {cs : List Tree} {name : List String} (h : runtimeCall? (.node .callExpr cs) = some name) :
    options.wrapTree function (.node .callExpr cs) = options.wrapInside function (.node .callExpr cs) := by
  have hgen : generatedCall? (.node .callExpr cs) = some name := by
    rw [generatedCall?_eq, withoutAwait_of_kind (by decide), h]
  rw [wrapTree_eq, site?, hgen]
  rfl

theorem awaited?_eq_some {t base : Tree} (h : awaited? t = some base) :
    isOwnCall base = false ∧ ∃ attrs dot await, t = .node .awaitExpr [attrs, base, dot, await] := by
  unfold awaited? at h
  split at h
  · split at h
    · cases h
    · rename_i hb
      cases h
      exact ⟨by simpa using hb, _, _, _, rfl⟩
  · cases h

/-- What is awaited is wrapped like any other part, also if a probe has put it there. -/
theorem wrapInside_awaited (attrs dot await : Tree) {base : Tree} (hb : isOwnCall base = false) :
    ∃ attrs' dot' await', options.wrapInside function (.node .awaitExpr [attrs, base, dot, await]) =
      .node .awaitExpr [attrs', options.wrapTree function base, dot', await'] := by
  cases hr : runtimeCall? base with
  | some name =>
    obtain ⟨a, callee, args, rfl⟩ := callExpr_of_runtimeCall? hr
    refine ⟨attrs, dot, await, ?_⟩
    rw [wrapTree_runtime options function hr, wrapInside_runtime options function hr]
    cases hh : holdsBody name with
    | false => exact wrapInside_of_exchange (.hidden hr hh)
    | true => exact wrapInside_of_exchange (.awaitedBody attrs dot await hr hh _)
  | none =>
    have hcall : callOf? (.node .awaitExpr [attrs, base, dot, await]) = none := by
      rw [← Option.isNone_iff_eq_none, ← Option.not_isSome, callOf?_isSome]
      simpa [isOwnCall, hr, calls?, withoutAwait] using hb
    have hgen : generatedCall? (.node .awaitExpr [attrs, base, dot, await]) = none := hr
    exact ⟨_, _, _, wrapInside_of_exchange (.children (hasOwnOrder_of_kind rfl) rfl hgen (fun _ => hcall) _)⟩

/-- A node that is no call of the runtime, is not an awaited one and waits for nothing else is no call that was put
    there. -/
theorem generatedCall?_of_not_awaited {t : Tree} (ha : awaited? t = none) (hr : runtimeCall? t = none) :
    generatedCall? t = none := by
  rw [generatedCall?_eq]
  fun_cases withoutAwait t with
  | case1 attrs base dot await =>
    have hb : isOwnCall base = true := by simpa [awaited?] using ha
    simp only [isOwnCall, Bool.and_eq_true, Option.isNone_iff_eq_none] at hb
    exact hb.2
  | case2 => simpa [withoutAwait] using hr

theorem awaited?_of_kind {k : Kind} {cs : List Tree} (hk : k ≠ .awaitExpr) : awaited? (.node k cs) = none := by
  simp [awaited?, hk]

theorem isOwnCall_map (k : Kind) (cs : List Tree) :
    isOwnCall (.node k (cs.map (options.wrapTree function))) = isOwnCall (.node k cs) := by
  rw [isOwnCall, isOwnCall, runtimeCall?_map, ofCall?_isSome, ofCall?_isSome, List.length_map]

/-- A node of which all children are wrapped waits for no more than before. -/
theorem awaited?_map {k : Kind} {cs : List Tree} (ha : awaited? (.node k cs) = none)
    (hk : k = .awaitExpr → callOf? (.node k cs) = none) :
    awaited? (.node k (cs.map (options.wrapTree function))) = none ∧
    (k = .awaitExpr → callOf? (.node k (cs.map (options.wrapTree function))) = none) := by
  by_cases hawait : k = .awaitExpr
  · subst hawait
    rcases cs with _ | ⟨attrs, _ | ⟨base, _ | ⟨dot, _ | ⟨await, _ | ⟨extra, rest⟩⟩⟩⟩⟩
    case cons.cons.cons.cons.nil =>
      -- What is awaited would be a call together with its `await`.
      have hown : isOwnCall base = true := by simpa [awaited?] using ha
      have hnone := congrArg Option.isSome (hk rfl)
      rw [callOf?_isSome] at hnone
      simp only [isOwnCall, Bool.and_eq_true] at hown
      exact absurd (hown.1.symm.trans hnone) (by simp)
    all_goals simp [awaited?, callOf?, Target.ofCall?]
  · exact ⟨awaited?_of_kind hawait, fun h => absurd h hawait⟩

/-- A tree that waits for nothing else and is no call of the runtime is of the same form after wrapping. -/
theorem wrapInside_form {t : Tree} (ha : awaited? t = none) (hr : runtimeCall? t = none) :
    awaited? (options.wrapInside function t) = none ∧
    (hasOwnOrder t = false → hasOwnOrder (options.wrapInside function t) = false) ∧
    (t.kind? = some .awaitExpr → (callOf? (options.wrapInside function t)).isSome = (callOf? t).isSome) := by
  have hgen := generatedCall?_of_not_awaited ha hr
  have hform := options.exchange_wrapInside function t
  generalize hnew : (parts t).map (options.wrapTree function) = new at hform
  generalize options.wrapInside function t = t', parts t = ps at hform hnew ⊢
  cases hform with
  | repeated | forLoop | whileLoop | matched =>
    refine ⟨awaited?_of_kind (by decide), fun h => ?_, fun hkind => ?_⟩
    · cases h
    · cases hkind
  | closed => exact ⟨ha, id, fun _ => rfl⟩
  | hidden hg => cases hg.symm.trans hgen
  | body hg => cases hg.symm.trans hgen
  | awaitedBody attrs dot await hg => cases hg.symm.trans hgen
  | @awaited attrs dot await l =>
    cases hnew
    have hown : isOwnCall (.node l ps) = true := by simpa [awaited?] using ha
    have hown' := (isOwnCall_map options function l ps).trans hown
    refine ⟨by simp [awaited?, hown'], fun _ => hasOwnOrder_of_kind rfl, fun _ => ?_⟩
    simp only [isOwnCall, Bool.and_eq_true] at hown hown'
    rw [callOf?_isSome, callOf?_isSome]
    exact hown'.1.trans hown.1.symm
  | children hn hk hg hc =>
    cases hnew
    obtain ⟨ha', hc'⟩ := awaited?_map options function ha hc
    refine ⟨ha', fun _ => hasOwnOrder_map hn, fun hkind => ?_⟩
    rw [hc (Option.some.inj hkind), hc' (Option.some.inj hkind)]
  | group | arguments | leaf | tokens => exact ⟨rfl, fun _ => rfl, fun hkind => by cases hkind⟩

/-- The parts that a walk visits are those of the tree before, wrapped, in the same places. -/
theorem parts_wrapInside {t : Tree} (ha : awaited? t = none) (hr : runtimeCall? t = none) :
    awaited? (options.wrapInside function t) = none ∧
    parts (options.wrapInside function t) = (parts t).map (options.wrapTree function) ∧
    ∀ new, new.length = (parts t).length → withParts (options.wrapInside function t) new = withParts t new := by
  obtain ⟨ha', hn, hc⟩ := wrapInside_form options function ha hr
  have hr' : runtimeCall? (options.wrapInside function t) = none := (wrapInside_call_shape options function t).1.trans hr
  obtain ⟨hparts, hwith⟩ := (options.exchange_wrapInside function t).again hn (generatedCall?_of_not_awaited ha hr)
    (generatedCall?_of_not_awaited ha' hr') hc
  exact ⟨ha', hparts, fun new hlength => hwith new (by simpa using hlength)⟩

/-- The parts that are looked into are those of the tree before, wrapped, in the same places. -/
theorem subs_wrapInside {t : Tree} (hr : runtimeCall? t = none) :
    subs (options.wrapInside function t) = (subs t).map (options.wrapTree function) ∧
    ∀ new, new.length = (subs t).length → withSubs (options.wrapInside function t) new = withSubs t new := by
  have hr' : runtimeCall? (options.wrapInside function t) = none := (wrapInside_call_shape options function t).1.trans hr
  cases ha : awaited? t with
  | some base =>
    obtain ⟨hb, attrs, dot, await, rfl⟩ := awaited?_eq_some ha
    obtain ⟨attrs', dot', await', hw⟩ := wrapInside_awaited options function attrs dot await hb
    have ha' : awaited? (options.wrapInside function (.node .awaitExpr [attrs, base, dot, await])) =
        some (options.wrapTree function base) := by
      rw [hw, awaited?, isOwnCall_wrapTree options function hb]
      rfl
    simp [subs, withSubs, ha, ha']
  | none =>
    obtain ⟨ha', hparts, hwith⟩ := parts_wrapInside options function ha hr
    simpa [subs, withSubs, ha, ha', hr, hr', hparts] using hwith

/-- The children of a call that is awaited are wrapped, and nothing else. -/
theorem wrapInside_awaited_call (attrs dot await : Tree) {base : Tree} (hb : isOwnCall base = true) :
    ∃ l cs, base = .node l cs ∧ options.wrapInside function (.node .awaitExpr [attrs, base, dot, await]) =
      .node .awaitExpr [attrs, .node l (cs.map (options.wrapTree function)), dot, await] := by
  simp only [isOwnCall, Bool.and_eq_true, Option.isNone_iff_eq_none] at hb
  have hcall : (callOf? (.node .awaitExpr [attrs, base, dot, await])).isSome = true := by
    rw [callOf?_isSome]
    exact hb.1
  have hgen : generatedCall? (.node .awaitExpr [attrs, base, dot, await]) = none := (generatedCall?_eq _).trans hb.2
  obtain ⟨l, cs, rfl, -⟩ := kind_of_ofCall? hb.1
  exact ⟨l, cs, rfl, wrapInside_of_exchange (.awaited hgen hcall _)⟩

/-- What is asked about is a call. -/
theorem isCall_of_isAsked {t : Tree} (h : isAsked t = true) : isCall t = true := by
  simp only [isAsked, Bool.and_eq_true, Option.isNone_iff_eq_none, callOf?_isSome, generatedCall?_eq] at h
  fun_cases isCall t with
  | case1 attrs base dot await => simpa [isOwnCall, isCall, calls?, withoutAwait] using h.symm
  | case2 t hawait => simpa [isCall, calls?, withoutAwait] using h.2

theorem isCall_wrapInside (t : Tree) : isCall (options.wrapInside function t) = isCall t := by
  fun_cases isCall t with
  | case1 attrs base dot await =>
    cases hb : isOwnCall base with
    | true =>
      obtain ⟨l, cs, rfl, hw⟩ := wrapInside_awaited_call options function attrs dot await hb
      rw [hw, isCall, isOwnCall_map, hb]
    | false =>
      obtain ⟨attrs', dot', await', hw⟩ := wrapInside_awaited options function attrs dot await hb
      rw [hw, isCall, isOwnCall_wrapTree options function hb]
  | case2 t hawait =>
    rw [isCall, (wrapInside_call_shape options function t).2]
    intro attrs' base' dot' await' he
    have hform := options.exchange_wrapInside function t
    rw [he] at hform
    generalize hnew : (parts t).map (options.wrapTree function) = new at hform
    generalize parts t = ps at hform hnew
    cases hform with
    | closed | hidden | awaitedBody | awaited => exact hawait _ _ _ _ rfl
    | children =>
      simp only [List.map_eq_cons_iff, List.map_eq_nil_iff] at hnew
      obtain ⟨a, _, rfl, -, b, _, rfl, -, c, _, rfl, -, d, _, rfl, -, rfl⟩ := hnew
      exact hawait _ _ _ _ rfl

/-- Wrapping keeps what is a call and what is none. -/
theorem isCall_wrapTree (t : Tree) : isCall (options.wrapTree function t) = isCall t := by
  cases hw : options.isWrapped function t with
  | false => rw [wrapTree_of_not_isWrapped _ _ hw, isCall_wrapInside]
  | true =>
    obtain ⟨site, -, hs⟩ := options.wrapTree_of_isWrapped function hw
    rw [hs]
    simp only [isWrapped, Bool.and_eq_true] at hw
    exact (isCall_of_isAsked hw.1).symm

/-! ### What stands between calls -/

@[simp]
theorem frame_group (d : Delimiter) (o c : Pos) (content : List Tree) :
    frame (.group d o content c) = .group d o (content.map frame) c := by
  rw [frame, if_neg (by simp [isCall, Target.ofCall?]), skeleton_eq]
  rfl

theorem frame_list (ts : List Tree) : frame (.node .list ts) = .node .list (ts.map frame) := by
  have hform (new : List Tree) : Exchange (.node .list ts) ts new (.node .list new) := CallOptions.exchange_of_isOpen rfl new
  have hsubs : subs (.node .list ts) = ts := by
    rw [subs, awaited?_of_kind (by decide)]
    exact (hform ts).parts_eq
  have hwith (new : List Tree) : withSubs (.node .list ts) new = .node .list new := by
    rw [withSubs, awaited?_of_kind (by decide)]
    exact (hform new).withParts_eq
  rw [frame, if_neg (by simp [isCall, Target.ofCall?]), skeleton_eq, hsubs, hwith]

theorem skeleton_runtime {cs : List Tree} {name : List String} (h : runtimeCall? (.node .callExpr cs) = some name) :
    skeleton (.node .callExpr cs) = .node .callExpr (cs.map frame) := by
  rw [skeleton_eq, subs, withSubs, awaited?_of_kind (by decide), h]
  rfl

theorem seesParts_frame : SeesParts frame where
  list h := by rw [frame_list, frame_list, h]
  group h := by rw [frame_group, frame_group, h]

theorem frames_withLastArgOf {g : Tree → Tree} {cs : List Tree} (h : ∀ p ∈ lastArgOf cs, frame (g p) = frame p) :
    (withLastArgOf ((lastArgOf cs).map g) cs).map frame = cs.map frame := by
  refine map_withLastArgOf seesParts_frame ?_
  rw [List.map_map]
  exact List.map_congr_left h

theorem wrapTree_of_not_call {t : Tree} (h : isCall t = false) :
    options.wrapTree function t = options.wrapInside function t := by
  refine wrapTree_of_not_isWrapped options function ?_
  cases ha : isAsked t with
  | true => rw [isCall_of_isAsked ha] at h; cases h
  | false => simp [isWrapped, ha]

theorem runtimeCall?_of_not_call {t : Tree} (h : isCall t = false) : runtimeCall? t = none := by
  cases hr : runtimeCall? t with
  | none => rfl
  | some name =>
    obtain ⟨attrs, callee, args, rfl⟩ := callExpr_of_runtimeCall? hr
    cases h

/-- What stands between the calls of a wrapped tree is what stood there before. -/
theorem frame_wrapTree (t : Tree) : frame (options.wrapTree function t) = frame t ∧
    skeleton (options.wrapInside function t) = skeleton t := by
  have hskeleton : skeleton (options.wrapInside function t) = skeleton t := by
    cases hr : runtimeCall? t with
    | none =>
      obtain ⟨hsubs, hwith⟩ := subs_wrapInside options function hr
      have hframes : (subs t).map (frame ∘ options.wrapTree function) = (subs t).map frame :=
        List.map_congr_left fun p hp =>
          have := sizeOf_subs hp
          (frame_wrapTree p).1
      rw [skeleton_eq, skeleton_eq, hsubs, List.map_map, hframes, hwith _ (by simp)]
    | some name =>
      obtain ⟨attrs, callee, args, rfl⟩ := callExpr_of_runtimeCall? hr
      have hr' := (wrapInside_call_shape options function _).1.trans hr
      rw [wrapInside_runtime options function hr] at hr' ⊢
      rw [skeleton_runtime hr', skeleton_runtime hr]
      split
      · have hlast : ∀ p ∈ lastArgOf [attrs, callee, args], frame (options.wrapTree function p) = frame p := by
          intro p hp
          have := sizeOf_lastArgOf hp
          exact (frame_wrapTree p).1
        rw [frames_withLastArgOf hlast]
      · rfl
  refine ⟨?_, hskeleton⟩
  rw [frame, frame, isCall_wrapTree]
  split
  · rfl
  · rename_i hcall
    rw [wrapTree_of_not_call options function (by simpa using hcall), hskeleton]
termination_by sizeOf t
decreasing_by all_goals simp_all <;> omega

/-- The calls of a wrapped expression are its calls, wrapped. -/
theorem outer_wrapTree (t : Tree) : outer (options.wrapTree function t) = (outer t).map (options.wrapTree function) := by
  rw [outer_eq, outer_eq t, isCall_wrapTree]
  cases hc : isCall t with
  | true => rfl
  | false =>
    have hr : runtimeCall? t = none := runtimeCall?_of_not_call hc
    have hparts : ∀ p ∈ subs t, outer (options.wrapTree function p) = (outer p).map (options.wrapTree function) :=
      fun p hp => have := sizeOf_subs hp; outer_wrapTree p
    rw [wrapTree_of_not_call options function hc, (subs_wrapInside options function hr).1]
    simp only [Bool.false_eq_true, ↓reduceIte, List.flatMap_map, List.map_flatMap]
    exact List.flatMap_congr hparts
termination_by sizeOf t

/-! ### Operands -/

/-- An operand after wrapping. -/
def wrapOperand (o : Tree × Bool) : Tree × Bool := (if o.2 then options.wrapTree function o.1 else o.1, o.2)

theorem argsOf_wrapTree (t : Tree) :
    argsOf (options.wrapTree function t) = (argsOf t).map (options.wrapTree function) := by
  cases t with
  | group d o content c =>
    rw [wrapTree_group]
    match content with
    | [] => rfl
    | [list] => exact elements_wrapTree options function list
    | _ :: _ :: _ => rfl
  | node k cs =>
    obtain ⟨k', cs', hcs, -⟩ := options.wrapTree_node function k cs
    rw [hcs]
    rfl
  | leaf l => simp [argsOf]
  | tokens ts => simp [argsOf]
  | arguments w read => simp [argsOf]

theorem operandTrees_map (k : Kind) (cs : List Tree) :
    operandTrees (.node k (cs.map (options.wrapTree function))) =
      (operandTrees (.node k cs)).map (options.wrapTree function) := by
  rw [operandTrees.eq_def]
  split
  · rename_i he
    simp only [Tree.node.injEq, List.map_eq_cons_iff, List.map_eq_nil_iff] at he
    obtain ⟨rfl, a, _, rfl, -, b, _, rfl, rfl, c, _, rfl, rfl, rfl⟩ := he
    rw [argsOf_wrapTree]
    rfl
  · rename_i he
    simp only [Tree.node.injEq, List.map_eq_cons_iff, List.map_eq_nil_iff] at he
    obtain ⟨rfl, a, _, rfl, -, b, _, rfl, rfl, c, _, rfl, -, d, _, rfl, -, e, _, rfl, -, f, _, rfl, rfl, rfl⟩ := he
    rw [argsOf_wrapTree]
    rfl
  · rename_i hc hm
    rw [operandTrees]
    · rfl
    · rintro attrs callee args he
      cases he
      exact hc _ _ _ rfl
    · rintro attrs receiver dot method generics args he
      cases he
      exact hm _ _ _ _ _ _ rfl

theorem lastOnly_cons (t : Tree) {ts : List Tree} (h : ts ≠ []) : lastOnly (t :: ts) = (t, false) :: lastOnly ts := by
  cases ts with
  | nil => exact absurd rfl h
  | cons u ts => rfl

theorem lastOnly_eq_nil {ts : List Tree} (h : lastOnly ts = []) : ts = [] := by
  cases ts with
  | nil => rfl
  | cons t ts => cases ts <;> cases h

theorem everySecond_ne_nil {ts : List Tree} (h : ts ≠ []) : Tree.elements.everySecond ts ≠ [] := by
  match ts with
  | [] => exact absurd rfl h
  | [_] => simp [Tree.elements.everySecond]
  | _ :: _ :: _ => simp [Tree.elements.everySecond]

theorem lastOnly_withLastArg (ts : List Tree) :
    lastOnly (Tree.elements.everySecond (withLastArg ((lastArg ts).map (options.wrapTree function)) ts)) =
      (lastOnly (Tree.elements.everySecond ts)).map (wrapOperand options function) := by
  fun_induction lastArg ts with
  | case1 => rfl
  | case2 t => rfl
  | case3 t sep => rfl
  | case4 t sep rest hrest ih =>
    have hold : Tree.elements.everySecond rest ≠ [] := everySecond_ne_nil hrest
    have hnew : Tree.elements.everySecond (withLastArg ((lastArg rest).map (options.wrapTree function)) rest) ≠ [] := by
      intro hnil
      rw [hnil] at ih
      exact hold (lastOnly_eq_nil (List.map_eq_nil_iff.mp ih.symm))
    rw [withLastArg, Tree.elements.everySecond, Tree.elements.everySecond, lastOnly_cons t hnew, lastOnly_cons t hold, ih]
    · rfl
    · exact hrest

/-- Arguments that are no list have no last one. -/
theorem withLastArgOf_of_no_list (attrs callee : Tree) {args : Tree} (h : ∀ d o ts c, args ≠ .group d o [.node .list ts] c) :
    argsOf args = [] ∧ ∀ new, withLastArgOf new [attrs, callee, args] = [attrs, callee, args] := by
  constructor
  · fun_cases argsOf args with
    | case1 d o list c =>
      cases list with
      | node k cs =>
        by_cases hk : k = .list
        · subst hk
          exact absurd rfl (h d o cs c)
        · simp [Tree.elements, hk]
      | _ => rfl
    | case2 t hn => rfl
  · intro new
    rw [withLastArgOf]
    intro _ _ d o ts c he
    cases he
    exact h d o ts c rfl

/-- The operands of a call after wrapping: those that are visited are wrapped. -/
theorem operandsOf_wrapInside {t : Tree} (h : isCall t = true) :
    operandsOf (options.wrapInside function t) = (operandsOf t).map (wrapOperand options function) := by
  have hr' := (wrapInside_call_shape options function t).1
  cases hr : runtimeCall? t with
  | some name =>
    obtain ⟨attrs, callee, args, rfl⟩ := callExpr_of_runtimeCall? hr
    rw [operandsOf, operandsOf, hr', hr, wrapInside_runtime options function hr]
    cases hb : holdsBody name with
    | false => simp [operandTrees, wrapOperand, hb]
    | true =>
      by_cases hargs : ∃ d o ts c, args = .group d o [.node .list ts] c
      · obtain ⟨d, o, ts, c, rfl⟩ := hargs
        have hlast := lastOnly_withLastArg options function ts
        simp [lastArgOf, withLastArgOf, operandTrees, argsOf, Tree.elements, hlast, wrapOperand, hb]
      · simp only [not_exists] at hargs
        obtain ⟨hnone, hsame⟩ := withLastArgOf_of_no_list attrs callee hargs
        simp [hsame, hnone, operandTrees, lastOnly, wrapOperand, hb]
  | none =>
    have hall : ∀ ts : List Tree, (ts.map (options.wrapTree function)).map (·, true) =
        (ts.map (·, true)).map (wrapOperand options function) := by simp [wrapOperand]
    rw [operandsOf, operandsOf, hr', hr]
    simp only [← hall]
    fun_cases isCall t with
    | case1 attrs base dot await =>
      obtain ⟨l, cs, rfl, hw⟩ := wrapInside_awaited_call options function attrs dot await h
      rw [hw, withoutAwait, withoutAwait, operandTrees_map]
    | case2 t hawait =>
      rw [isCall] at h
      · obtain ⟨k, cs, rfl, hk⟩ := kind_of_ofCall? h
        have hne : k ≠ .awaitExpr := by rcases hk with rfl | rfl <;> decide
        rw [wrapInside_own options function hk hr, withoutAwait_of_kind hne, withoutAwait_of_kind hne, operandTrees_map]
      · exact hawait

/-! ### Guards -/

/-- The guard that wrapping puts around a call, if it is asked about and let through. -/
def guardOf (call : Tree) : Option Tree :=
  (site? function call).bind fun site =>
    if options.accepts site.target then (guardArgs options.wrapper site.toStatic).toOption.bind List.head? else none

/-- The wrapper called on the site of a call reads as one argument, if the call is wrapped. -/
def HasGuard (call : Tree) : Prop := ∀ site, site? function call = some site → options.accepts site.target = true →
  ∃ guard, guardArgs options.wrapper site.toStatic = .ok [guard]

theorem length_withLastArg {new ts : List Tree} (h : new.length = (lastArg ts).length) :
    (withLastArg new ts).length = ts.length := by
  fun_induction lastArg ts with
  | case1 => rfl
  | case2 t => simpa [withLastArg] using h
  | case3 t sep => simpa [withLastArg] using h
  | case4 t sep rest hrest ih =>
    rw [withLastArg]
    · simpa using ih h
    · exact hrest

theorem finishing?_of_runtimeCall? {t : Tree} (h : runtimeCall? t ≠ some ["finish"]) : finishing? t = none := by
  fun_cases finishing? t with
  | case1 attrs callee d o guard comma call c hf => exact absurd hf.1 h
  | case2 => rfl
  | case3 => rfl

/-- A call of `finish` has three arguments with the comma, if it guards a call. -/
theorem arguments_of_finishing {attrs callee args : Tree} {f : Tree × Tree}
    (h : finishing? (.node .callExpr [attrs, callee, args]) = some f) :
    ∃ d o guard comma call c, args = .group d o [.node .list [guard, comma, call]] c := by
  rw [finishing?.eq_def] at h
  split at h
  · rename_i he
    cases he
    exact ⟨_, _, _, _, _, _, rfl⟩
  · cases h

/-- Wrapping leaves the guard of a call of `finish` and wraps the call that it guards. -/
theorem finishing?_wrapInside (t : Tree) : finishing? (options.wrapInside function t) =
    (finishing? t).map fun f => (f.1, options.wrapTree function f.2) := by
  have hr := (wrapInside_call_shape options function t).1
  by_cases hf : runtimeCall? t = some ["finish"]
  · obtain ⟨attrs, callee, args, rfl⟩ := callExpr_of_runtimeCall? hf
    rw [wrapInside_runtime options function hf]
    have hb : holdsBody ["finish"] = true := rfl
    rw [if_pos hb]
    by_cases hargs : ∃ d o guard comma call c, args = .group d o [.node .list [guard, comma, call]] c
    · obtain ⟨d, o, guard, comma, call, c, rfl⟩ := hargs
      have hf' := hf
      rw [runtimeCall?_args _ _ _ (.group d o [.node .list [guard, comma, options.wrapTree function call]] c)] at hf'
      cases hcall : isCall call <;>
        simp [lastArgOf, withLastArgOf, lastArg, withLastArg, finishing?, hf, hf', hcall, isCall_wrapTree options function call]
    · -- with any other arguments, there is no guard before and none after
      have hnone : finishing? (.node .callExpr [attrs, callee, args]) = none :=
        Option.eq_none_iff_forall_not_mem.mpr fun f hf => hargs (arguments_of_finishing hf)
      rw [hnone, Option.map_none, Option.eq_none_iff_forall_not_mem]
      intro f hf'
      by_cases hlist : ∃ d o ts c, args = .group d o [.node .list ts] c
      · obtain ⟨d, o, ts, c, rfl⟩ := hlist
        obtain ⟨_, _, guard, comma, call, _, he⟩ := arguments_of_finishing hf'
        simp only [Tree.group.injEq, List.cons.injEq, Tree.node.injEq, lastArgOf] at he
        obtain ⟨rfl, rfl, ⟨⟨-, hts⟩, -⟩, rfl⟩ := he
        have hlength : (withLastArg ((lastArg ts).map (options.wrapTree function)) ts).length = ts.length :=
          length_withLastArg (by simp)
        rw [hts] at hlength
        obtain ⟨a, b, e, rfl⟩ := List.length_eq_three.mp hlength.symm
        exact hargs ⟨_, _, _, _, _, _, rfl⟩
      · simp only [not_exists] at hlist
        rw [(withLastArgOf_of_no_list attrs callee hlist).2] at hf'
        exact hargs (arguments_of_finishing hf')
  · rw [finishing?_of_runtimeCall? hf, finishing?_of_runtimeCall? (by rw [hr]; exact hf)]
    rfl

theorem finishing?_wrapped {call guard : Tree} {site : Site} (hg : guardArgs options.wrapper site.toStatic = .ok [guard])
    (hc : isCall call = true) : finishing? (wrapped options.wrapper site call) = some (guard, call) := by
  have hwrapped : wrapped options.wrapper site call =
      Make.call (Make.rootPath ["shallow_runtime", "finish"] site.start) [guard, Make.symbol "," site.start, call] site.start := by
    simp [wrapped, hg]
    rfl
  rw [hwrapped]
  exact if_pos ⟨rfl, hc⟩

/-- Wrapping a call puts one more guard around it, inside of those that are there. -/
theorem peel_wrapTree {t : Tree} (hc : isCall t = true) (hg : HasGuard options function (peel t).2) :
    peel (options.wrapTree function t) =
      ((peel t).1 ++ (guardOf options function (peel t).2).toList, options.wrapInside function (peel t).2) := by
  have hinside := finishing?_wrapInside options function t
  cases hf : finishing? t with
  | some f =>
    obtain ⟨guard, call⟩ := f
    obtain ⟨cs, rfl, hr, hcall, -⟩ := lastArgOf_of_finishing hf
    have := sizeOf_finishing hf
    rw [peel_of_some hf] at hg ⊢
    rw [hf] at hinside
    rw [wrapTree_runtime options function hr, peel_of_some hinside, peel_wrapTree hcall hg]
    rfl
  | none =>
    rw [peel_of_none hf] at hg ⊢
    rw [hf] at hinside
    rw [wrapTree_eq, guardOf]
    cases hs : site? function t with
    | none => exact peel_of_none hinside
    | some site =>
      cases ha : options.accepts site.target with
      | false => simpa [ha] using peel_of_none hinside
      | true =>
        obtain ⟨guard, hguard⟩ := hg site hs ha
        have hwrapped := finishing?_wrapped options hguard ((isCall_wrapInside options function t).trans hc)
        simp only [ha, hguard, ↓reduceIte, Option.bind_some]
        rw [peel_of_some hwrapped, peel_of_none hinside]
        rfl
termination_by sizeOf t

/-- What evaluation knows of a call after wrapping: nothing new but one more guard. -/
theorem viewOf_wrapTree {t : Tree} (hc : isCall t = true) (hg : HasGuard options function (peel t).2) :
    viewOf (options.wrapTree function t) =
      { viewOf t with guards := (viewOf t).guards ++ (guardOf options function (peel t).2).toList } := by
  have hpeel := peel_wrapTree options function hc hg
  have hoperands := operandsOf_wrapInside options function (isCall_peel hc)
  have hframe : ∀ o : Tree × Bool, frame (wrapOperand options function o).1 = frame o.1 := by
    intro o
    rw [wrapOperand]
    split
    · exact (frame_wrapTree options function o.1).1
    · rfl
  rw [viewOf, viewOf, hpeel]
  simp only [hoperands, List.map_map, Function.comp_def, hframe, (frame_wrapTree options function (peel t).2).2]

/-! ### Places -/

theorem callIn_wrapOperand (os : List (Tree × Bool)) (step : Nat × Nat) :
    callIn (os.map (wrapOperand options function)) step = (callIn os step).map (wrapOperand options function) := by
  rw [callIn, callIn, List.getElem?_map]
  cases os[step.1]? with
  | none => rfl
  | some o =>
    obtain ⟨t, visited⟩ := o
    cases visited with
    | false => simp [wrapOperand, Function.comp_def]
    | true => simp [wrapOperand, outer_wrapTree, Function.comp_def]

theorem inside_wrapOperand {call : Tree × Bool} (hc : isCall call.1 = true)
    (hg : call.2 = true → HasGuard options function (peel call.1).2) :
    inside (wrapOperand options function call) = (inside call).map (wrapOperand options function) := by
  obtain ⟨t, visited⟩ := call
  cases visited with
  | false => simp [inside, wrapOperand]
  | true =>
    simp only [inside, wrapOperand, ↓reduceIte, peel_wrapTree options function hc (hg rfl),
      operandsOf_wrapInside options function (isCall_peel hc), Bool.true_and]
    simp

/-- The calls of wrapped code stand where they stood: those that are visited are wrapped. -/
theorem callAt_wrapOperand {os : List (Tree × Bool)} {p : Place}
    (hg : ∀ q t, callAt os q = some (t, true) → HasGuard options function (peel t).2) :
    callAt (os.map (wrapOperand options function)) p = (callAt os p).map (wrapOperand options function) := by
  fun_induction callAt os p with
  | case1 => rfl
  | case2 os step => exact callIn_wrapOperand options function os step
  | case3 os step next rest ih =>
    rw [callAt, callIn_wrapOperand]
    cases hcall : callIn os step with
    | none => rfl
    | some call =>
      obtain ⟨o, -, hmem, -⟩ := callIn_eq_some hcall
      have hstep : ∀ q t, callAt (inside call) q = some (t, true) → HasGuard options function (peel t).2 := by
        intro q t hq
        cases q with
        | nil => cases hq
        | cons first more =>
          refine hg (step :: first :: more) t ?_
          rw [callAt, hcall]
          exact hq
      have hguard : call.2 = true → HasGuard options function (peel call.1).2 := by
        intro hvisited
        refine hg [step] call.1 ?_
        rw [callAt, hcall, ← hvisited]
      simp only [Option.map_some, Option.bind_some]
      rw [inside_wrapOperand options function (isCall_of_mem_outer hmem) hguard, ih call hstep]

/-- The guard that wrapping puts around the call at a place of a body: none where no call is visited, asked about and
    let through. -/
def guardAt (body : Tree) (p : Place) : Option Tree :=
  (callAt [(body, true)] p).bind fun call => if call.2 then guardOf options function (peel call.1).2 else none

theorem isCall_of_callAt {os : List (Tree × Bool)} {p : Place} {call : Tree × Bool} (h : callAt os p = some call) :
    isCall call.1 = true := by
  fun_induction callAt os p with
  | case1 => cases h
  | case2 os step =>
    obtain ⟨o, -, hmem, -⟩ := callIn_eq_some h
    exact isCall_of_mem_outer hmem
  | case3 os step next rest ih =>
    obtain ⟨c, -, hcall⟩ := Option.bind_eq_some_iff.mp h
    exact ih c hcall

/-- The calls of a wrapped body are those of the body, some with one more guard. -/
theorem codeOf_wrapTree {body : Tree}
    (hg : ∀ q t, callAt [(body, true)] q = some (t, true) → HasGuard options function (peel t).2) :
    codeOf (options.wrapTree function body) = (codeOf body).guardWith (guardAt options function body) := by
  funext p
  have hcalls : callAt [(options.wrapTree function body, true)] p =
      (callAt [(body, true)] p).map (wrapOperand options function) := callAt_wrapOperand options function hg
  rw [codeOf, hcalls, Code.guardWith, codeOf, guardAt]
  cases hcall : callAt [(body, true)] p with
  | none => rfl
  | some call =>
    obtain ⟨t, visited⟩ := call
    cases visited with
    | false => simp [wrapOperand]
    | true => simp [wrapOperand, viewOf_wrapTree options function (isCall_of_callAt hcall) (hg p t hcall)]

end

end CallProbe.Behaviour
