import CallProbe.Proofs.Walk.Nodes
import CallProbe.Proofs.Wrap.Outcome

/-! # Names after wrapping

A call is named after what is called, and that may hold calls of its own, as in `client.get().send()`. Once these are
wrapped, the name is read off the wrapped code. `ofExpr_wrapTree` says what it then is: it ends at the first wrapped
call, in whose place stands the name of what `finish` gives back. `Cancels.seenExpr_iff` says when this shows. -/

namespace CallProbe.Probe

open Source Call

namespace CallOptions

section
variable (options : CallOptions) (function : String)

/-! ### Which calls are wrapped -/

/-- Whether a tree is a call that is asked about and let through. -/
def isWrapped (t : Tree) : Bool := isAsked t && options.acceptsCall function t

theorem wrapTree_of_isWrapped {t : Tree} (h : options.isWrapped function t = true) :
    ∃ site, Site.of? function t = some site ∧
      options.wrapTree function t = wrapped options.wrapper site (options.wrapInside function t) := by
  simp only [isWrapped, Bool.and_eq_true] at h
  obtain ⟨site, hsite, hacc⟩ := (Option.any_eq_true _ _).mp h.2
  refine ⟨site, hsite, ?_⟩
  rw [wrapTree_eq, site?_eq_of_isAsked function h.1, hsite]
  exact if_pos hacc

theorem wrapTree_of_not_isWrapped {t : Tree} (h : options.isWrapped function t = false) :
    options.wrapTree function t = options.wrapInside function t := by
  rw [wrapTree_eq]
  cases hsite : site? function t with
  | none => rfl
  | some site =>
    obtain ⟨ha, hof⟩ := isAsked_of_site hsite
    have hacc : options.accepts site.target = false := by simpa [isWrapped, ha, acceptsCall, hof] using h
    exact if_neg (by simp [hacc])

variable {options function}

theorem group_of_wrapTree {t : Tree} {d : Delimiter} {o c : Pos} {new : List Tree}
    (h : options.wrapTree function t = .group d o new c) :
    ∃ content, t = .group d o content c ∧ content.map (options.wrapTree function) = new := by
  cases t with
  | group e p content q =>
    rw [wrapTree_group] at h
    cases h
    exact ⟨content, rfl, rfl⟩
  | node k cs =>
    obtain ⟨k', cs', hcs, -⟩ := options.wrapTree_node function k cs
    rw [hcs] at h
    cases h
  | leaf l => simp at h
  | tokens ts => simp at h
  | arguments w read => simp at h

theorem leaf_of_wrapTree {t : Tree} {l : Leaf} (h : options.wrapTree function t = .leaf l) : t = .leaf l := by
  cases t with
  | leaf m =>
    rw [wrapTree_leaf] at h
    exact h
  | node k cs =>
    obtain ⟨k', cs', hcs, -⟩ := options.wrapTree_node function k cs
    rw [hcs] at h
    cases h
  | tokens ts => simp at h
  | arguments w read => simp at h
  | group d o content c => simp at h

theorem node_of_wrapTree {t : Tree} {k : Kind} {new : List Tree} (hk : isOpen k = true)
    (h : options.wrapTree function t = .node k new) :
    ∃ cs, t = .node k cs ∧ cs.map (options.wrapTree function) = new := by
  cases t with
  | node l cs =>
    obtain ⟨l', cs', hcs, rfl | ⟨-, rfl⟩⟩ := options.wrapTree_node function l cs
    · rw [hcs] at h
      cases h
      rw [wrapTree_of_isOpen _ _ hk] at hcs
      cases hcs
      exact ⟨cs, rfl, rfl⟩
    · rw [hcs] at h
      cases h
      cases hk
  | leaf l => simp at h
  | tokens ts => simp at h
  | arguments w read => simp at h
  | group d o content c => simp at h

/-! ### Names on the second walk -/

@[simp]
theorem keyOf_wrapTree (t : Tree) : Target.keyOf (options.wrapTree function t) = Target.keyOf t := by
  fun_induction Target.keyOf t with
  | case1 | case2 | case3 | case4 =>
    rw [wrapTree_of_isOpen _ _ rfl]
    simp [Target.keyOf, *]
  | case5 attrs d o e c ih =>
    rw [wrapTree_of_isOpen _ _ rfl]
    simpa [Target.keyOf] using ih
  | case6 t hlit hparen =>
    rw [Target.keyOf.eq_def]
    split
    · rename_i attrs l p he
      obtain ⟨cs, rfl, hmap⟩ := node_of_wrapTree rfl he
      simp only [List.map_eq_cons_iff, List.map_eq_nil_iff] at hmap
      obtain ⟨a, _, rfl, -, b, _, rfl, hb, rfl⟩ := hmap
      exact absurd (by rw [leaf_of_wrapTree hb]) (hlit a l p)
    · rename_i attrs d o e c he
      obtain ⟨cs, rfl, hmap⟩ := node_of_wrapTree rfl he
      simp only [List.map_eq_cons_iff, List.map_eq_nil_iff] at hmap
      obtain ⟨a, _, rfl, -, b, _, rfl, hb, rfl⟩ := hmap
      obtain ⟨content, rfl, hcontent⟩ := group_of_wrapTree hb
      simp only [List.map_eq_cons_iff, List.map_eq_nil_iff] at hcontent
      obtain ⟨e, _, rfl, -, rfl⟩ := hcontent
      exact absurd rfl (hparen a d o e c)
    · rfl

/-- The name of what the runtime's `finish` gives back. -/
def finished : Target := .result (.path ["shallow_runtime", "finish"])

variable (options function) in
/-- What an expression in the place of a callee stands for once calls are wrapped: the names come to an end at the
    first wrapped call. -/
def seenExpr : Tree → Target
  | .node .pathExpr [_, p] => .path (Target.pathNames p)
  | .node .fieldExpr [_, base, _, m] => .member (seenExpr base) m.text
  | .node .indexExpr [_, base, .group _ _ [key] _] => .index (seenExpr base) (Target.keyOf key)
  | .node .callExpr [attrs, callee, args] =>
    if options.isWrapped function (.node .callExpr [attrs, callee, args]) then finished else .result (seenExpr callee)
  | .node .methodCallExpr [attrs, receiver, dot, method, generics, args] =>
    if options.isWrapped function (.node .methodCallExpr [attrs, receiver, dot, method, generics, args]) then finished
    else .result (.member (seenExpr receiver) method.text)
  | .node .parenExpr [_, .group _ _ [e] _] => seenExpr e
  | .node .referenceExpr [_, _, _, e] => seenExpr e
  | t => if options.isWrapped function t then finished else .unnamed

theorem ofExpr_of_isWrapped {t : Tree} (h : options.isWrapped function t = true) :
    Target.ofExpr (options.wrapTree function t) = finished := by
  obtain ⟨site, -, hw⟩ := options.wrapTree_of_isWrapped function h
  rw [hw]
  rfl

/-- The kinds of expressions with a name. -/
def isSpine (k : Kind) : Bool :=
  [Kind.pathExpr, .fieldExpr, .indexExpr, .callExpr, .methodCallExpr, .parenExpr, .referenceExpr].contains k

theorem ofExpr_of_kind {k : Kind} {cs : List Tree} (hk : isSpine k = false) : Target.ofExpr (.node k cs) = .unnamed := by
  rw [Target.ofExpr.eq_def]
  split
  all_goals first
    | rfl
    | rename_i he
      cases he
      cases hk

theorem wrapTree_of_isSpine {k : Kind} {cs : List Tree} (hr : namesNoRuntime (.node k cs) = true)
    (hn : options.isWrapped function (.node k cs) = false) (hk : isSpine k = true) :
    options.wrapTree function (.node k cs) = .node k (cs.map (options.wrapTree function)) := by
  by_cases hc : k = .callExpr ∨ k = .methodCallExpr
  · rw [wrapTree_of_not_isWrapped _ _ hn, wrapInside_own _ _ hc (runtimeCall?_of_namesNoRuntime hr)]
  · simp only [isSpine, List.contains_iff_mem, List.mem_cons, List.not_mem_nil, or_false] at hk
    rcases hk with rfl | rfl | rfl | rfl | rfl | rfl | rfl
    all_goals first | exact wrapTree_of_isOpen _ _ rfl | simp at hc

theorem ofExpr_wrapTree {t : Tree} (hr : namesNoRuntime t = true) :
    Target.ofExpr (options.wrapTree function t) = options.seenExpr function t := by
  fun_induction seenExpr options function t with
  | case1 => 
    rw [wrapTree_of_isOpen _ _ rfl]
    simp only [List.map_cons, List.map_nil, Target.ofExpr, pathNames_wrapTree]
  | case2 attrs base dot m ih =>
    rw [wrapTree_of_isOpen _ _ rfl]
    simp only [List.map_cons, List.map_nil, Target.ofExpr, ih (everyNode_children hr _ (by simp)), text_wrapTree]
  | case3 attrs base d o key c ih => 
    rw [wrapTree_of_isOpen _ _ rfl]
    simp only [List.map_cons, wrapTree_group, List.map_nil, Target.ofExpr, ih (everyNode_children hr _ (by simp)),
      keyOf_wrapTree]
  | case4 attrs callee args h => exact ofExpr_of_isWrapped h
  | case5 attrs callee args h ih =>
    rw [wrapTree_of_not_isWrapped _ _ (by simpa using h), wrapInside_own _ _ (.inl rfl) (runtimeCall?_of_namesNoRuntime hr)]
    simp only [List.map_cons, List.map_nil, Target.ofExpr, ih (everyNode_children hr _ (by simp))]
  | case6 attrs receiver dot method generics args h => exact ofExpr_of_isWrapped h
  | case7 attrs receiver dot method generics args h ih =>
    rw [wrapTree_of_not_isWrapped _ _ (by simpa using h), wrapInside_own _ _ (.inr rfl) (runtimeCall?_of_namesNoRuntime hr)]
    simp only [List.map_cons, List.map_nil, Target.ofExpr, ih (everyNode_children hr _ (by simp)), text_wrapTree]
  | case8 attrs d o e c ih =>
    rw [wrapTree_of_isOpen _ _ rfl]
    have he := everyNode_content (everyNode_children hr (.group d o [e] c) (by simp)) e (by simp)
    simpa [Target.ofExpr] using ih he
  | case9 attrs amp m e ih =>
    rw [wrapTree_of_isOpen _ _ rfl]
    simpa [Target.ofExpr] using ih (everyNode_children hr _ (by simp))
  | case10 t _ _ _ _ _ _ _ h => exact ofExpr_of_isWrapped h
  | case11 t hpath hfield hindex hcall hmethod hparen href h =>
    have hw := options.wrapTree_of_not_isWrapped function (by simpa using h)
    cases t with
    | node k cs =>
      cases hs : isSpine k with
      | false =>
        obtain ⟨cs', hcs⟩ : ∃ cs', options.wrapInside function (.node k cs) = .node k cs' :=
          kind?_eq_some (kind?_withParts (.node k cs) _)
        rw [hw, hcs, ofExpr_of_kind hs]
      | true =>
        -- The children stay in their places, so a form that had no name has none.
        rw [wrapTree_of_isSpine hr (by simpa using h) hs, Target.ofExpr.eq_def]
        split
        · rename_i he
          simp only [Source.Tree.node.injEq, List.map_eq_cons_iff, List.map_eq_nil_iff] at he
          obtain ⟨rfl, a, _, rfl, -, b, _, rfl, -, rfl⟩ := he
          exact absurd rfl (hpath a b)
        · rename_i he
          simp only [Source.Tree.node.injEq, List.map_eq_cons_iff, List.map_eq_nil_iff] at he
          obtain ⟨rfl, a, _, rfl, -, b, _, rfl, -, c, _, rfl, -, d, _, rfl, -, rfl⟩ := he
          exact absurd rfl (hfield a b c d)
        · rename_i he
          simp only [Source.Tree.node.injEq, List.map_eq_cons_iff, List.map_eq_nil_iff] at he
          obtain ⟨rfl, a, _, rfl, -, b, _, rfl, -, c, _, rfl, hg, rfl⟩ := he
          obtain ⟨content, rfl, hcontent⟩ := group_of_wrapTree hg
          simp only [List.map_eq_cons_iff, List.map_eq_nil_iff] at hcontent
          obtain ⟨e, _, rfl, -, rfl⟩ := hcontent
          exact absurd rfl (hindex _ _ _ _ _ _)
        · rename_i he
          simp only [Source.Tree.node.injEq, List.map_eq_cons_iff, List.map_eq_nil_iff] at he
          obtain ⟨rfl, a, _, rfl, -, b, _, rfl, -, c, _, rfl, -, rfl⟩ := he
          exact absurd rfl (hcall a b c)
        · rename_i he
          simp only [Source.Tree.node.injEq, List.map_eq_cons_iff, List.map_eq_nil_iff] at he
          obtain ⟨rfl, a, _, rfl, -, b, _, rfl, -, c, _, rfl, -, d, _, rfl, -, e, _, rfl, -, f, _, rfl, -, rfl⟩ := he
          exact absurd rfl (hmethod a b c d e f)
        · rename_i he
          simp only [Source.Tree.node.injEq, List.map_eq_cons_iff, List.map_eq_nil_iff] at he
          obtain ⟨rfl, a, _, rfl, -, b, _, rfl, hg, rfl⟩ := he
          obtain ⟨content, rfl, hcontent⟩ := group_of_wrapTree hg
          simp only [List.map_eq_cons_iff, List.map_eq_nil_iff] at hcontent
          obtain ⟨e, _, rfl, -, rfl⟩ := hcontent
          exact absurd rfl (hparen _ _ _ _ _)
        · rename_i he
          simp only [Source.Tree.node.injEq, List.map_eq_cons_iff, List.map_eq_nil_iff] at he
          obtain ⟨rfl, a, _, rfl, -, b, _, rfl, -, c, _, rfl, -, d, _, rfl, -, rfl⟩ := he
          exact absurd rfl (href a b c d)
        · rfl
    | leaf l => simp only [wrapTree_leaf, Target.ofExpr]
    | tokens ts => simp only [wrapTree_tokens, Target.ofExpr]
    | arguments w read => simp only [wrapTree_arguments, Target.ofExpr]
    | group d o content c => simp only [wrapTree_group, Target.ofExpr]

variable (options function) in
/-- The first wrapped call that the name of an expression goes through. -/
def firstWrapped : Tree → Option Tree
  | .node .pathExpr [_, _] => none
  | .node .fieldExpr [_, base, _, _] => firstWrapped base
  | .node .indexExpr [_, base, .group _ _ [_] _] => firstWrapped base
  | .node .callExpr [attrs, callee, args] =>
    if options.isWrapped function (.node .callExpr [attrs, callee, args]) then some (.node .callExpr [attrs, callee, args])
    else firstWrapped callee
  | .node .methodCallExpr [attrs, receiver, dot, method, generics, args] =>
    if options.isWrapped function (.node .methodCallExpr [attrs, receiver, dot, method, generics, args]) then
      some (.node .methodCallExpr [attrs, receiver, dot, method, generics, args])
    else firstWrapped receiver
  | .node .parenExpr [_, .group _ _ [e] _] => firstWrapped e
  | .node .referenceExpr [_, _, _, e] => firstWrapped e
  | t => if options.isWrapped function t then some t else none

/-- A relation of targets that depends on no more than what is different in them. -/
structure Cancels (r : Target → Target → Prop) : Prop where
  refl : ∀ a, r a a
  member : ∀ a b m, r (.member a m) (.member b m) ↔ r a b
  index : ∀ a b k, r (.index a k) (.index b k) ↔ r a b
  result : ∀ a b, r (.result a) (.result b) ↔ r a b

theorem cancels_eq : Cancels Eq where
  refl a := rfl
  member a b m := by simp
  index a b k := by simp
  result a b := by simp

theorem cancels_text : Cancels fun a b => a.text = b.text where
  refl a := rfl
  member a b m := by simp [Target.text]
  index a b k := by simp [Target.text]
  result a b := by simp [Target.text]

/-- Wrapping shows in the name of an expression just if it shows in that of the first wrapped call. -/
theorem Cancels.seenExpr_iff {r : Target → Target → Prop} (hr : Cancels r) (t : Tree) :
    r (options.seenExpr function t) (Target.ofExpr t) ↔
      ∀ c, options.firstWrapped function t = some c → r finished (Target.ofExpr c) := by
  fun_induction seenExpr options function t with
  | case1 => simp only [Target.ofExpr, hr.refl, firstWrapped, reduceCtorEq, IsEmpty.forall_iff, implies_true]
  | case2 attrs base dot m ih => simp only [Target.ofExpr, hr.member, ih, firstWrapped]
  | case3 attrs base d o key c ih => simp only [Target.ofExpr, hr.index, ih, firstWrapped]
  | case4 attrs callee args h => simp only [firstWrapped, h, ↓reduceIte, Option.some.injEq, forall_eq']
  | case5 attrs callee args h ih =>
    simp only [Target.ofExpr, hr.result, ih, firstWrapped, h, Bool.false_eq_true, ↓reduceIte]
  | case6 attrs receiver dot method generics args h =>
    simp only [firstWrapped, h, ↓reduceIte, Option.some.injEq, forall_eq']
  | case7 attrs receiver dot method generics args h ih =>
    simp only [Target.ofExpr, hr.result, hr.member, ih, firstWrapped, h, Bool.false_eq_true, ↓reduceIte]
  | case8 attrs d o e c ih => simp only [Target.ofExpr, ih, firstWrapped]
  | case9 attrs amp m e ih => simp only [Target.ofExpr, ih, firstWrapped]
  | case10 t _ _ _ _ _ _ _ h => simp only [firstWrapped, h, ↓reduceIte, Option.some.injEq, forall_eq']
  | case11 t _ _ _ _ _ _ _ h =>
    simp only [Target.ofExpr, hr.refl, firstWrapped, h, Bool.false_eq_true, ↓reduceIte, reduceCtorEq,
      IsEmpty.forall_iff, implies_true]

end

end CallOptions

end CallProbe.Probe
