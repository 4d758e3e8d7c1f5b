import CallProbe.Proofs.Walk.Scope
import CallProbe.Proofs.Wrap.Names
import CallProbe.Proofs.Wrap.Unwrap
import Mathlib.Data.List.Basic
import Mathlib.Data.List.Flatten

/-! # Wrapping what is wrapped

A block whose calls were wrapped by one probe is walked again by the next. The second walk looks through the calls that
the first probe put there, so it comes to the calls of the function again (`rewalk_calls`), but it reads their names
off the wrapped code. `rewalk_iff` says just when these names are those of the block before. They need not be: in
`client.get().send()` the wrapped receiver hides what `send` is called on. -/

namespace CallProbe.Probe

open Source Call

namespace CallOptions

section
variable {options : CallOptions} {function : String}

/-! ### Calls on the second walk -/

variable (options function) in
/-- What a call that is not awaited calls once calls are wrapped. -/
def seenCall? : Tree → Option Target
  | .node .callExpr [_, callee, _] => some (options.seenExpr function callee)
  | .node .methodCallExpr [_, receiver, _, method, _, _] =>
    some (.member (options.seenExpr function receiver) method.text)
  | _ => none

theorem seenCall?_isSome (t : Tree) : (options.seenCall? function t).isSome = (Target.ofCall? t).isSome := by
  fun_cases seenCall? options function t with
  | case1 => rfl
  | case2 => rfl
  | case3 t hc hm => simp [Target.ofCall?]

theorem ofCall?_map {k : Kind} {cs : List Tree} (hr : ∀ c ∈ cs, namesNoRuntime c = true) :
    Target.ofCall? (.node k (cs.map (options.wrapTree function))) = options.seenCall? function (.node k cs) := by
  rw [Target.ofCall?.eq_def]
  split
  · rename_i he
    simp only [Source.Tree.node.injEq, List.map_eq_cons_iff, List.map_eq_nil_iff] at he
    obtain ⟨rfl, a, _, rfl, -, b, _, rfl, rfl, c, _, rfl, -, rfl⟩ := he
    rw [ofExpr_wrapTree (hr b (by simp))]
    rfl
  · rename_i he
    simp only [Source.Tree.node.injEq, List.map_eq_cons_iff, List.map_eq_nil_iff] at he
    obtain ⟨rfl, a, _, rfl, -, b, _, rfl, rfl, c, _, rfl, -, d, _, rfl, rfl, e, _, rfl, -, f, _, rfl, -, rfl⟩ := he
    rw [ofExpr_wrapTree (hr b (by simp)), text_wrapTree]
    rfl
  · rename_i hc hm
    rw [seenCall?.eq_def]
    split
    · rename_i he
      cases he
      exact absurd rfl (hc _ _ _)
    · rename_i he
      cases he
      exact absurd rfl (hm _ _ _ _ _ _)
    · rfl

theorem ofCall?_of_kind {k : Kind} {cs : List Tree} (hc : k ≠ .callExpr) (hm : k ≠ .methodCallExpr) :
    Target.ofCall? (.node k cs) = none := by
  simp [Target.ofCall?, hc, hm]

theorem ofCall?_wrapTree_eq_none {t : Tree} (hr : namesNoRuntime t = true) (hn : options.isWrapped function t = false)
    (h : Target.ofCall? t = none) : Target.ofCall? (options.wrapTree function t) = none := by
  rw [wrapTree_of_not_isWrapped _ _ hn]
  cases t with
  | node k cs =>
    by_cases hk : k = .callExpr ∨ k = .methodCallExpr
    · rw [wrapInside_own _ _ hk (runtimeCall?_of_namesNoRuntime hr), ofCall?_map (everyNode_children hr), ← Option.isNone_iff_eq_none, ← Option.not_isSome]
      rw [seenCall?_isSome, h]
      rfl
    · obtain ⟨cs', hcs⟩ : ∃ cs', options.wrapInside function (.node k cs) = .node k cs' :=
        kind?_eq_some (kind?_withParts (.node k cs) _)
      rw [not_or] at hk
      rw [hcs, ofCall?_of_kind hk.1 hk.2]
  | _ => rfl

theorem block_of_wrapTree {t : Tree} {d : Delimiter} {o c : Pos} {inner stmts : Tree}
    (h : options.wrapTree function t = .node .block [.group d o [inner, stmts] c]) :
    ∃ inner stmts, t = .node .block [.group d o [inner, stmts] c] := by
  obtain ⟨cs, rfl, hcs⟩ := node_of_wrapTree rfl h
  simp only [List.map_eq_cons_iff, List.map_eq_nil_iff] at hcs
  obtain ⟨g, _, rfl, hg, rfl⟩ := hcs
  obtain ⟨content, rfl, hcontent⟩ := group_of_wrapTree hg
  simp only [List.map_eq_cons_iff, List.map_eq_nil_iff] at hcontent
  obtain ⟨inner, _, rfl, -, stmts, _, rfl, -, rfl⟩ := hcontent
  exact ⟨inner, stmts, rfl⟩

theorem hasOwnOrder_map {k : Kind} {cs : List Tree} (h : hasOwnOrder (.node k cs) = false) :
    hasOwnOrder (.node k (cs.map (options.wrapTree function))) = false := by
  refine Bool.eq_false_iff.mpr fun howns => ?_
  rcases forms_of_hasOwnOrder howns with ⟨_, _, _, _, _, _, he⟩ | ⟨_, _, _, _, _, _, _, _, _, _, _, he⟩ |
    ⟨_, _, _, _, _, _, _, _, _, he⟩ | ⟨_, _, _, _, _, _, _, _, he⟩
  · simp only [Source.Tree.node.injEq, List.map_eq_cons_iff, List.map_eq_nil_iff] at he
    obtain ⟨rfl, a, _, rfl, -, b, _, rfl, hb, rfl⟩ := he
    obtain ⟨content, rfl, hcontent⟩ := group_of_wrapTree hb
    obtain ⟨e, rest, rfl, -⟩ := List.map_eq_cons_iff.mp hcontent
    cases h
  · simp only [Source.Tree.node.injEq, List.map_eq_cons_iff, List.map_eq_nil_iff] at he
    obtain ⟨rfl, _, _, rfl, -, _, _, rfl, -, _, _, rfl, -, _, _, rfl, -, _, _, rfl, -, _, _, rfl, -, b, _, rfl, hb, rfl⟩ := he
    obtain ⟨inner, stmts, rfl⟩ := block_of_wrapTree hb
    cases h
  · simp only [Source.Tree.node.injEq, List.map_eq_cons_iff, List.map_eq_nil_iff] at he
    obtain ⟨rfl, _, _, rfl, -, _, _, rfl, -, _, _, rfl, -, _, _, rfl, -, b, _, rfl, hb, rfl⟩ := he
    obtain ⟨inner, stmts, rfl⟩ := block_of_wrapTree hb
    cases h
  · simp only [Source.Tree.node.injEq, List.map_eq_cons_iff, List.map_eq_nil_iff] at he
    obtain ⟨rfl, _, _, rfl, -, _, _, rfl, -, _, _, rfl, -, b, _, rfl, hb, rfl⟩ := he
    obtain ⟨content, rfl, hcontent⟩ := group_of_wrapTree hb
    simp only [List.map_eq_cons_iff, List.map_eq_nil_iff] at hcontent
    obtain ⟨inner, _, rfl, -, arms, _, rfl, -, rfl⟩ := hcontent
    cases h

/-- Once wrapped, just the wrapped calls are calls of the runtime. -/
theorem runtimeCall?_wrapTree {t : Tree} (hr : namesNoRuntime t = true) :
    runtimeCall? (options.wrapTree function t) = if options.isWrapped function t then some ["finish"] else none := by
  cases hw : options.isWrapped function t with
  | true =>
    obtain ⟨site, -, hs⟩ := options.wrapTree_of_isWrapped function hw
    rw [hs]
    rfl
  | false =>
    rw [wrapTree_of_not_isWrapped _ _ hw]
    cases t with
    | node k cs =>
      by_cases hk : k = .callExpr
      · rw [wrapInside_own _ _ (.inl hk) (runtimeCall?_of_namesNoRuntime hr), runtimeCall?_map, runtimeCall?_of_namesNoRuntime hr]
        rfl
      · obtain ⟨cs', hcs⟩ : ∃ cs', options.wrapInside function (.node k cs) = .node k cs' :=
          kind?_eq_some (kind?_withParts (.node k cs) _)
        simp [hcs, runtimeCall?, hk]
    | _ => rfl

variable (options function) in
/-- The wrapped call that is awaited once more: wrapping makes the whole an awaited call of the runtime. -/
def awaitsWrapped? : Tree → Option Tree
  | .node .awaitExpr [attrs, base, dot, await] =>
    if options.isWrapped function base && !isAsked (.node .awaitExpr [attrs, base, dot, await]) then some base else none
  | _ => none

/-- With its children wrapped, a node that is no awaited call is no call of the runtime, and it calls what the names of
    its children then say. -/
theorem rewalk_children {k : Kind} {cs : List Tree} (hr : namesNoRuntime (.node k cs) = true)
    (hn : options.awaitsWrapped? function (.node k cs) = none) (hk : k = .awaitExpr → callOf? (.node k cs) = none) :
    generatedCall? (.node k (cs.map (options.wrapTree function))) = none ∧
    (calls? (.node k (cs.map (options.wrapTree function)))).isSome = (calls? (.node k cs)).isSome ∧
    (isAsked (.node k cs) = true →
      calls? (.node k (cs.map (options.wrapTree function))) = options.seenCall? function (withoutAwait (.node k cs))) := by
  have hchildren := everyNode_children hr
  by_cases ha : k = .awaitExpr
  · subst ha
    have hnone : callOf? (.node .awaitExpr cs) = none := hk rfl
    have hcalls : calls? (.node .awaitExpr cs) = none := by rw [← callOf?_eq, hnone]; rfl
    have hasked : isAsked (.node .awaitExpr cs) = false := by simp [isAsked, hnone]
    rcases cs with _ | ⟨attrs, _ | ⟨base, _ | ⟨dot, _ | ⟨await, _ | ⟨extra, rest⟩⟩⟩⟩⟩
    case cons.cons.cons.cons.nil =>
      have hbase : options.isWrapped function base = false := by simpa [awaitsWrapped?, hasked] using hn
      refine ⟨?_, ?_, by simp [hasked]⟩
      · rw [generatedCall?_eq]
        exact (runtimeCall?_wrapTree (hchildren base (by simp))).trans (by rw [hbase]; rfl)
      · rw [hcalls]
        exact congrArg Option.isSome (ofCall?_wrapTree_eq_none (hchildren base (by simp)) hbase hcalls)
    -- With any other number of children, nothing is awaited.
    all_goals
      refine ⟨?_, ?_, by simp [hasked]⟩
      · simp [generatedCall?, runtimeCall?]
      · simp [calls?, withoutAwait, Target.ofCall?]
  · have hmap : calls? (.node k (cs.map (options.wrapTree function))) = options.seenCall? function (.node k cs) := by
      rw [calls?, withoutAwait_of_kind ha, ofCall?_map hchildren]
    refine ⟨?_, ?_, fun _ => ?_⟩
    · rw [generatedCall?_eq, withoutAwait_of_kind ha, runtimeCall?_map, runtimeCall?_of_namesNoRuntime hr]
    · rw [hmap, seenCall?_isSome, calls?, withoutAwait_of_kind ha]
    · rw [hmap, withoutAwait_of_kind ha]

/-- The second walk takes a tree as the first one did: it visits what became of the same parts, and asks about it if
    the first one did. -/
theorem rewalk_step {t : Tree} (hr : namesNoRuntime t = true) (hn : options.awaitsWrapped? function t = none) :
    parts (options.wrapInside function t) = (parts t).map (options.wrapTree function) ∧
    isAsked (options.wrapInside function t) = isAsked t ∧
    (isAsked t = true → calls? (options.wrapInside function t) = options.seenCall? function (withoutAwait t)) := by
  have hgenerated := generatedCall?_of_namesNoRuntime hr
  have hform := options.exchange_wrapInside function t
  generalize hnew : (parts t).map (options.wrapTree function) = new at hform
  generalize options.wrapInside function t = t', parts t = ps at hform hnew ⊢
  cases hform with
  | closed cs hk =>
    have hasked : isAsked (.node _ cs) = false := isAsked_of_kind (isCallKind_of_closed hk)
    exact ⟨(Exchange.closed cs hk).parts_eq, rfl, fun ha => by cases hasked.symm.trans ha⟩
  | hidden hg => cases hg.symm.trans hgenerated
  | body hg => cases hg.symm.trans hgenerated
  | awaitedBody attrs dot await hg => cases hg.symm.trans hgenerated
  | @awaited attrs dot await l _ hg hcall =>
    cases hnew
    -- The awaited call itself is not wrapped, only its children are, so that the whole is a call as before.
    have hinner := everyNode_children hr (.node l ps) (by simp)
    have hgen : generatedCall? (.node .awaitExpr [attrs, .node l (ps.map (options.wrapTree function)), dot, await]) =
        none := by
      rw [generatedCall?_eq]
      exact (runtimeCall?_map options function l ps).trans (runtimeCall?_of_namesNoRuntime hinner)
    have hcalls : calls? (.node .awaitExpr [attrs, .node l (ps.map (options.wrapTree function)), dot, await]) =
        options.seenCall? function (.node l ps) := ofCall?_map (everyNode_children hinner)
    have hsome : (callOf? (.node .awaitExpr [attrs, .node l (ps.map (options.wrapTree function)), dot, await])).isSome =
        true := by
      rw [callOf?_isSome, hcalls, seenCall?_isSome]
      rw [callOf?_isSome] at hcall
      exact hcall
    refine ⟨(Exchange.awaited hgen hsome []).parts_eq, ?_, fun _ => hcalls⟩
    simp [isAsked, hgen, hsome, hg, hcall]
  | @children k _ hn' hk hg hc =>
    cases hnew
    obtain ⟨hgen, hsome, hcalls⟩ := rewalk_children hr hn hc
    -- An `await` of something else does not turn into one of a call: that is what `hn` rules out.
    have hnone (ha : k = .awaitExpr) : callOf? (.node k (ps.map (options.wrapTree function))) = none := by
      rw [← Option.not_isSome_iff_eq_none, callOf?_isSome, hsome, ← callOf?_isSome, hc ha]
      exact Bool.false_ne_true
    refine ⟨(Exchange.children (hasOwnOrder_map hn') hk hgen hnone []).parts_eq, ?_, hcalls⟩
    rw [isAsked, isAsked, hgen, callOf?_isSome, hsome, ← callOf?_isSome, hg]
  | _ => exact ⟨rfl, rfl, fun h => by cases h⟩

/-! ### Calls of `finish` on the second walk -/

theorem visits_finish {cs : List Tree} (h : runtimeCall? (.node .callExpr cs) = some ["finish"]) :
    visits (.node .callExpr cs) = Calls.joined ((lastArgOf cs).map visits) := by
  have hgen : generatedCall? (.node .callExpr cs) = some ["finish"] := h
  rw [visits_eq, (Exchange.body h rfl []).parts_eq, isAsked, hgen]
  rfl

theorem visits_awaited_finish {attrs dot await : Tree} {cs : List Tree}
    (h : runtimeCall? (.node .callExpr cs) = some ["finish"]) :
    visits (.node .awaitExpr [attrs, .node .callExpr cs, dot, await]) = Calls.joined ((lastArgOf cs).map visits) := by
  have hgen : generatedCall? (.node .awaitExpr [attrs, .node .callExpr cs, dot, await]) = some ["finish"] := h
  rw [visits_eq, (Exchange.awaitedBody attrs dot await h rfl []).parts_eq, isAsked, hgen]
  rfl

/-- A wrapped call that is awaited once more is seen as the wrapped call alone. -/
theorem rewalk_awaited {t base : Tree} (hr : namesNoRuntime t = true)
    (hb : options.awaitsWrapped? function t = some base) :
    base ∈ parts t ∧ isAsked t = false ∧
    visits (options.wrapInside function t) = visits (options.wrapTree function base) := by
  fun_cases awaitsWrapped? options function t with
  | case1 attrs base dot await h =>
    rw [awaitsWrapped?, if_pos h] at hb
    cases hb
    simp only [Bool.and_eq_true, Bool.not_eq_true'] at h
    have hgen := generatedCall?_of_namesNoRuntime hr
    have hnone : callOf? (.node .awaitExpr [attrs, base, dot, await]) = none := by
      simpa [isAsked, hgen] using h.2
    have hrun : runtimeCall? (options.wrapTree function base) = _ := runtimeCall?_wrapTree (everyNode_children hr base (by simp))
    have hform : ∀ new, Exchange (.node .awaitExpr [attrs, base, dot, await]) [attrs, base, dot, await] new
        (.node .awaitExpr new) := Exchange.children (hasOwnOrder_of_kind rfl) rfl hgen fun _ => hnone
    obtain ⟨site, -, hwrap⟩ := options.wrapTree_of_isWrapped function h.1
    rw [h.1] at hrun
    refine ⟨by rw [(hform []).parts_eq]; simp, h.2, ?_⟩
    rw [wrapInside_of_exchange (hform _), List.map_cons, List.map_cons]
    rw [hwrap] at hrun ⊢
    exact (visits_awaited_finish hrun).trans (visits_finish hrun).symm
  | case2 => simp [awaitsWrapped?, *] at hb
  | case3 => simp [awaitsWrapped?, *] at hb

theorem lastArg_append (sep call : Tree) : ∀ guard : List Tree,
    lastArg (guard ++ [sep, call]) = if guard.length % 2 = 1 then [call] else [sep]
  | [] => rfl
  | [_] => rfl
  | t :: s :: rest => by
    have hlength : (t :: s :: rest).length % 2 = rest.length % 2 := Nat.add_mod_right rest.length 2
    rw [List.cons_append, List.cons_append, lastArg, lastArg_append sep call rest, hlength]
    simp

variable (options) in
/-- Whether the wrapper called on the site of a call reads as arguments with commas between them. -/
def readsGuard (site : Site) : Bool := ((guardArgs options.wrapper site.toStatic).toOption.getD []).length % 2 = 1

theorem visits_wrapped (site : Site) (call : Tree) :
    visits (wrapped options.wrapper site call) = if options.readsGuard site then visits call else .nil := by
  have hrun : runtimeCall? (wrapped options.wrapper site call) = some ["finish"] := rfl
  have hargs : lastArgOf [.noAttrs, Make.rootPath ["shallow_runtime", "finish"] site.start, Make.parens
      [.list ((guardArgs options.wrapper site.toStatic).toOption.getD [] ++ [Make.symbol "," site.start, call])]
        site.start] = if options.readsGuard site then [call] else [Make.symbol "," site.start] := by
    refine (lastArg_append _ _ _).trans ?_
    simp [readsGuard]
  refine (visits_finish hrun).trans ?_
  rw [hargs]
  cases options.readsGuard site with
  | true => simp
  | false => simp [Make.symbol, visits_leaf, Calls.append]

variable (options function) in
/-- The parts of a tree that the second walk still comes to. -/
def kept (t : Tree) : List Tree :=
  match options.awaitsWrapped? function t with
  | some base => [base]
  | none => parts t

theorem sizeOf_kept {t p : Tree} (h : p ∈ options.kept function t) : sizeOf p < sizeOf t := by
  unfold kept at h
  split at h
  · rename_i base hb
    fun_cases awaitsWrapped? options function t with
    | case1 attrs base' dot await hw =>
      rw [awaitsWrapped?, if_pos hw] at hb
      cases hb
      rw [List.mem_singleton] at h
      subst h
      simp
      omega
    | case2 => simp [awaitsWrapped?, *] at hb
    | case3 => simp [awaitsWrapped?, *] at hb
  · exact sizeOf_parts h

variable (options function) in
/-- The calls of a tree that the second walk still asks about: all but those it loses, inside a guard that does not
    read as arguments or in front of a wrapped call that is awaited once more. -/
def survivors (t : Tree) : List Tree :=
  if options.isWrapped function t && !(Site.of? function t).all options.readsGuard then []
  else (if isAsked t then [t] else []) ++ (options.kept function t).attach.flatMap fun p => survivors p.1
termination_by sizeOf t
decreasing_by exact sizeOf_kept p.2

theorem survivors_eq (t : Tree) : options.survivors function t =
    if options.isWrapped function t && !(Site.of? function t).all options.readsGuard then []
    else (if isAsked t then [t] else []) ++ (options.kept function t).flatMap (options.survivors function) := by
  rw [survivors]
  simp

theorem kept_sublist {t : Tree} (hr : namesNoRuntime t = true) : (options.kept function t).Sublist (parts t) := by
  unfold kept
  split
  · rename_i base hb
    exact List.singleton_sublist.mpr (rewalk_awaited hr hb).1
  · exact .refl _

theorem survivors_sublist {t : Tree} (hr : namesNoRuntime t = true) :
    (options.survivors function t).Sublist (visits t).list := by
  induction t using parts_induction with
  | step t ih =>
    rw [survivors_eq, visits_list]
    split
    · exact List.nil_sublist _
    · refine (List.Sublist.refl _).append ?_
      refine ((kept_sublist hr).flatMap _).trans ?_
      exact .flatMap_right _ fun p hp => ih p hp (everyNode_parts hr hp)

/-- The names that the second walk asks about, call by call. -/
theorem rewalk_calls {t : Tree} (hr : namesNoRuntime t = true) :
    (visits (options.wrapTree function t)).list.map calls? =
      (options.survivors function t).map fun c => options.seenCall? function (withoutAwait c) := by
  induction t using parts_induction with
  | step t ih =>
    -- The tree before `finish` is put around it, which then hides it or not.
    have hinside : (visits (options.wrapInside function t)).list.map calls? =
        ((if isAsked t then [t] else []) ++ (options.kept function t).flatMap (options.survivors function)).map
          fun c => options.seenCall? function (withoutAwait c) := by
      cases hb : options.awaitsWrapped? function t with
      | some base =>
        obtain ⟨hmem, hasked, hvisits⟩ := rewalk_awaited hr hb
        rw [hvisits, hasked, ih base hmem (everyNode_parts hr hmem)]
        simp [kept, hb]
      | none =>
        obtain ⟨hparts, hasked, hcalls⟩ := rewalk_step hr hb
        have hrest : ((parts t).flatMap fun p => (visits (options.wrapTree function p)).list).map calls? =
            ((options.kept function t).flatMap (options.survivors function)).map
              fun c => options.seenCall? function (withoutAwait c) := by
          rw [kept, hb, List.map_flatMap, List.map_flatMap]
          exact List.flatMap_congr fun p hp => ih p hp (everyNode_parts hr hp)
        rw [visits_list, hparts, hasked, List.flatMap_map, List.map_append, List.map_append, hrest]
        cases ha : isAsked t with
        | true => simp [hcalls ha]
        | false => simp
    rw [survivors_eq]
    cases hw : options.isWrapped function t with
    | false =>
      rw [wrapTree_of_not_isWrapped _ _ hw, hinside]
      simp
    | true =>
      obtain ⟨site, hsite, hwrap⟩ := options.wrapTree_of_isWrapped function hw
      rw [hwrap, visits_wrapped, hsite]
      cases hguard : options.readsGuard site with
      | true => simpa [hguard] using hinside
      | false => simp [hguard, Calls.list]

/-! ### Names asked about -/

variable (options function) in
/-- The first wrapped call that the name of a call goes through. -/
def nameWrapped (c : Tree) : Option Tree :=
  match withoutAwait c with
  | .node .callExpr [_, callee, _] => options.firstWrapped function callee
  | .node .methodCallExpr [_, receiver, _, _, _, _] => options.firstWrapped function receiver
  | _ => none

theorem Cancels.seenCall?_iff {α : Type} {f : Target → α} (hf : Cancels fun a b => f a = f b) (c : Tree) :
    (options.seenCall? function (withoutAwait c)).map f = (calls? c).map f ↔
      ∀ w, options.nameWrapped function c = some w → f finished = f (Target.ofExpr w) := by
  rw [calls?, nameWrapped]
  generalize withoutAwait c = e
  fun_cases seenCall? options function e with
  | case1 attrs callee args => simpa [Target.ofCall?] using hf.seenExpr_iff callee
  | case2 attrs receiver dot method generics args =>
    simpa [Target.ofCall?] using (hf.member _ _ _).trans (hf.seenExpr_iff receiver)
  | case3 e hc hm => simp [Target.ofCall?]

/-- What a walk over a block asks about. -/
def targetsAsked {σ : Type} (strategy : Strategy σ) (function : String) (block : Tree) (s : σ) : List Target :=
  (sitesAsked (strategy.log function block s)).map Site.target

theorem targetsAsked_map_some {σ : Type} (strategy : Strategy σ) (function : String) (block : Tree) (s : σ) :
    (targetsAsked strategy function block s).map some = (visits block).list.map calls? := by
  have h := (strategy.log_spec function block s).1.sitesAsked_map
  have hmap := congrArg (List.map (Option.map Site.target)) h
  rw [List.map_map, List.map_map] at hmap
  rw [targetsAsked, List.map_map]
  refine Eq.trans ?_ (hmap.trans (List.map_congr_left fun c _ => target_of? function c))
  rfl

/-- What the two walks ask about is the same in the eyes of `f` just if no call is lost and no name goes through a
    wrapped call that `f` can tell from what `finish` gives. -/
theorem Cancels.targetsAsked_iff {α : Type} {f : Target → α} (hf : Cancels fun a b => f a = f b) {b : Tree}
    (hr : namesNoRuntime b = true) {σ τ : Type} (again : Strategy σ) (first : Strategy τ) (s : σ) (u : τ) :
    (targetsAsked again function (options.wrapTree function b) s).map f = (targetsAsked first function b u).map f ↔
      options.survivors function b = (visits b).list ∧
      ∀ c ∈ (visits b).list, ∀ w, options.nameWrapped function c = some w → f finished = f (Target.ofExpr w) := by
  have hsome : ∀ ts us : List Target, ts.map f = us.map f ↔
      (ts.map some).map (Option.map f) = (us.map some).map (Option.map f) := by
    intro ts us
    rw [← List.map_inj_right (fun _ _ => Option.some.inj), List.map_map, List.map_map, List.map_map, List.map_map]
    rfl
  rw [hsome, targetsAsked_map_some, targetsAsked_map_some, rewalk_calls hr, List.map_map, List.map_map]
  constructor
  · intro h
    have hsub : (options.survivors function b).Sublist (visits b).list := survivors_sublist hr
    have hlist := hsub.eq_of_length (by simpa using congrArg List.length h)
    rw [hlist] at h
    refine ⟨hlist, fun c hc => ?_⟩
    exact (hf.seenCall?_iff c).mp (List.map_inj_left.mp h c hc)
  · rintro ⟨hlist, hnames⟩
    rw [hlist]
    exact List.map_congr_left fun c hc => (hf.seenCall?_iff c).mpr (hnames c hc)

def namesAsked {σ : Type} (strategy : Strategy σ) (function : String) (block : Tree) (s : σ) : List String :=
  (sitesAsked (strategy.log function block s)).map Site.name

theorem namesAsked_eq {σ : Type} (strategy : Strategy σ) (function : String) (block : Tree) (s : σ) :
    namesAsked strategy function block s = (targetsAsked strategy function block s).map Target.text := by
  rw [namesAsked, targetsAsked, List.map_map]
  rfl

theorem acceptsCall_eq (options : CallOptions) (function : String) (c : Tree) :
    options.acceptsCall function c = (calls? c).any options.accepts := by
  rw [← target_of? function, Option.any_map]
  rfl

theorem accepts_of_calls {b b' : Tree} (h : (visits b').list.map calls? = (visits b).list.map calls?)
    (other : CallOptions) (function : String) :
    (visits b').list.map (other.acceptsCall function) = (visits b).list.map (other.acceptsCall function) ∧
    (other.wrapBlock function b').1.2 = (other.wrapBlock function b).1.2 := by
  have hmap : ∀ t : Tree, (visits t).list.map (other.acceptsCall function) =
      ((visits t).list.map calls?).map fun target => target.any other.accepts := by
    intro t
    rw [List.map_map]
    exact List.map_congr_left fun c _ => other.acceptsCall_eq function c
  have hsame : (visits b').list.map (other.acceptsCall function) = (visits b).list.map (other.acceptsCall function) := by
    rw [hmap, hmap, h]
  refine ⟨hsame, ?_⟩
  have hcount : ∀ t : Tree, (other.wrapBlock function t).1.2 =
      ((visits t).list.map (other.acceptsCall function)).countP id := by
    intro t
    rw [wrapBlock_eq, List.countP_map]
    rfl
  rw [hcount, hcount, hsame]

end

end CallOptions

end CallProbe.Probe
