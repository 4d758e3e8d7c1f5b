import CallProbe.Proofs.Walk.Nodes
import CallProbe.Proofs.Wrap.Outcome

/-! # Wrapping keeps the code

`unwrapped` takes the calls that wrapping puts into a tree out again, at every depth, and leaves their last
arguments. What it makes of a wrapped block is the block before, token for token and place for place, except that
the arguments of a macro count as the expressions they read as. `apply_keeps_code` says so of a whole function. -/

namespace CallProbe.Source

/-! ### Equality without places -/

theorem Leaf.same_refl (l : Leaf) : l.same l = true := by
  cases l <;> simp [Leaf.same]

mutual

theorem TokenTree.same_refl (t : TokenTree) : t.same t = true := by
  cases t with
  | group d o content c => simp [TokenTree.same, sameAll_refl content]
  | _ => simp [TokenTree.same]

theorem TokenTree.sameAll_refl (ts : List TokenTree) : TokenTree.same.sameAll ts ts = true := by
  cases ts with
  | nil => rfl
  | cons t ts => simp [TokenTree.same.sameAll, same_refl t, sameAll_refl ts]

end

mutual

theorem Tree.same_refl (t : Tree) : t.same t = true := by
  cases t with
  | leaf l => exact Leaf.same_refl l
  | tokens ts => exact TokenTree.sameAll_refl ts
  | arguments w read => simp [Tree.same, TokenTree.sameAll_refl, sameAll_refl read]
  | group d o content c => simp [Tree.same, sameAll_refl content]
  | node k cs => simp [Tree.same, sameAll_refl cs]

theorem Tree.sameAll_refl (ts : List Tree) : Tree.same.sameAll ts ts = true := by
  cases ts with
  | nil => rfl
  | cons t ts => simp [Tree.same.sameAll, same_refl t, sameAll_refl ts]

end

end CallProbe.Source

namespace CallProbe.Probe

open Source Call

/-! ### Calls put in by wrapping -/

/-- Whether a tree is `{ static __SHALLOW_SITE: _ = ::shallow_runtime::CallSite::new(_); &__SHALLOW_SITE }`. -/
def isSiteBlock : Tree → Bool
  | .node .blockExpr [.node .attrs [], .node .absent [], .node .block [.group .brace _ [.node .attrs [], .node .stmts
      [.node .itemStmt [.node .staticItem [_, _, _, _, name, _, _, _, value, _]],
        .node .exprStmt [reference, .node .absent []]]] _]] =>
    name.text == "__SHALLOW_SITE" && runtimeCall? value == some ["CallSite", "new"] &&
      reference.same (Make.reference "__SHALLOW_SITE")
  | _ => false

/-- Whether a tree is the wrapper called on a site. -/
def isGuard (wrapper : Tree) : Tree → Bool
  | .node .callExpr [.node .attrs [], .node .pathExpr [.node .attrs [], path], .group .paren _ [.node .list [site]] _] =>
    path.same wrapper && isSiteBlock site
  | _ => false

/-- Whether a tree is `::shallow_runtime::finish(GUARD, CALL)`. -/
def isInserted (wrapper : Tree) (t : Tree) : Bool :=
  runtimeCall? t == some ["finish"] && match t with
    | .node .callExpr [.node .attrs [], _, .group .paren _ [.node .list [guard, comma, _]] _] =>
      isGuard wrapper guard && comma.isSymbol ","
    | _ => false

mutual

/-- A tree without the calls that wrapping puts in: each is replaced by its last argument. -/
def unwrapped (wrapper : Tree) : Tree → Tree
  | .node .callExpr [attrs, callee, .group d o [.node .list [guard, comma, call]] c] =>
    if isInserted wrapper (.node .callExpr [attrs, callee, .group d o [.node .list [guard, comma, call]] c]) then
      unwrapped wrapper call
    else .node .callExpr [unwrapped wrapper attrs, unwrapped wrapper callee, .group d o
      [.node .list [unwrapped wrapper guard, unwrapped wrapper comma, unwrapped wrapper call]] c]
  | .node k cs => .node k (unwrappedAll wrapper cs)
  | .group d o content c => .group d o (unwrappedAll wrapper content) c
  | .arguments written read => .arguments written (unwrappedAll wrapper read)
  | t => t

def unwrappedAll (wrapper : Tree) : List Tree → List Tree
  | [] => []
  | t :: ts => unwrapped wrapper t :: unwrappedAll wrapper ts

end

mutual

/-- The number of calls that wrapping has put in. -/
def insertedCount (wrapper : Tree) : Tree → Nat
  | .node .callExpr [attrs, callee, .group d o [.node .list [guard, comma, call]] c] =>
    if isInserted wrapper (.node .callExpr [attrs, callee, .group d o [.node .list [guard, comma, call]] c]) then
      1 + insertedCount wrapper call
    else insertedCount wrapper attrs + insertedCount wrapper callee + insertedCount wrapper guard +
      insertedCount wrapper comma + insertedCount wrapper call
  | .node _ cs => insertedCounts wrapper cs
  | .group _ _ content _ => insertedCounts wrapper content
  | .arguments _ read => insertedCounts wrapper read
  | _ => 0

def insertedCounts (wrapper : Tree) : List Tree → Nat
  | [] => 0
  | t :: ts => insertedCount wrapper t + insertedCounts wrapper ts

end

mutual

/-- A tree in which the arguments of macros are no more than the expressions they read as. -/
def asRead : Tree → Tree
  | .node k cs => .node k (asReadAll cs)
  | .group d o content c => .group d o (asReadAll content) c
  | .arguments _ read => .arguments [] (asReadAll read)
  | t => t

def asReadAll : List Tree → List Tree
  | [] => []
  | t :: ts => asRead t :: asReadAll ts

end

/-- Wrapping puts nothing into a leaf. -/
example (wrapper : Tree) (l : Leaf) : unwrapped wrapper (.leaf l) = .leaf l ∧ insertedCount wrapper (.leaf l) = 0 := by
  simp [unwrapped, insertedCount]

theorem unwrappedAll_eq (wrapper : Tree) (ts : List Tree) : unwrappedAll wrapper ts = ts.map (unwrapped wrapper) := by
  induction ts with
  | nil => rw [unwrappedAll]; rfl
  | cons t ts ih => rw [unwrappedAll, ih]; rfl

theorem insertedCounts_eq (wrapper : Tree) (ts : List Tree) :
    insertedCounts wrapper ts = (ts.map (insertedCount wrapper)).sum := by
  induction ts with
  | nil => rw [insertedCounts]; rfl
  | cons t ts ih => rw [insertedCounts, ih]; rfl

theorem asReadAll_eq (ts : List Tree) : asReadAll ts = ts.map asRead := by
  induction ts with
  | nil => rw [asReadAll]; rfl
  | cons t ts ih => rw [asReadAll, ih]; rfl

theorem isInserted_of_runtimeCall? {wrapper t : Tree} (h : runtimeCall? t = none) : isInserted wrapper t = false := by
  simp [isInserted, h]

@[simp]
theorem isInserted_of_kind {wrapper : Tree} {k : Kind} {cs : List Tree} (hk : k ≠ .callExpr) :
    isInserted wrapper (.node k cs) = false := by
  simp [isInserted, hk]

section
variable {wrapper : Tree}

theorem unwrapped_node {k : Kind} {cs : List Tree} (h : isInserted wrapper (.node k cs) = false) :
    unwrapped wrapper (.node k cs) = .node k (cs.map (unwrapped wrapper)) := by
  rw [unwrapped.eq_def]
  split
  · rename_i he
    cases he
    simp only [h, Bool.false_eq_true, ↓reduceIte, List.map_cons, unwrapped, unwrappedAll_eq, List.map_nil]
  · rename_i he
    cases he
    rw [unwrappedAll_eq]
  · rename_i he
    cases he
  · rename_i he
    cases he
  · rename_i hn _ _
    exact absurd rfl (hn k cs)

theorem insertedCount_node {k : Kind} {cs : List Tree} (h : isInserted wrapper (.node k cs) = false) :
    insertedCount wrapper (.node k cs) = (cs.map (insertedCount wrapper)).sum := by
  rw [insertedCount.eq_def]
  split
  · rename_i he
    cases he
    simp only [h, Bool.false_eq_true, ↓reduceIte, List.map_cons, insertedCount, insertedCounts_eq, List.map_nil,
      List.sum_cons, List.sum_nil, add_zero]
    omega
  · rename_i he
    cases he
    rw [insertedCounts_eq]
  · rename_i he
    cases he
  · rename_i he
    cases he
  · rename_i hn _ _
    exact absurd rfl (hn k cs)

/-- The tree without the calls that wrapping puts in, as it is read. -/
def bare (wrapper t : Tree) : Tree := asRead (unwrapped wrapper t)

theorem bare_node {k : Kind} {cs : List Tree} (h : isInserted wrapper (.node k cs) = false) :
    bare wrapper (.node k cs) = .node k (cs.map (bare wrapper)) := by
  simp [bare, unwrapped_node h, asRead, asReadAll_eq]

@[simp]
theorem bare_group (d : Delimiter) (o c : Pos) (content : List Tree) :
    bare wrapper (.group d o content c) = .group d o (content.map (bare wrapper)) c := by
  simp [bare, unwrapped, asRead, unwrappedAll_eq, asReadAll_eq]

@[simp]
theorem bare_arguments (w : List TokenTree) (read : List Tree) :
    bare wrapper (.arguments w read) = .arguments [] (read.map (bare wrapper)) := by
  simp [bare, unwrapped, asRead, unwrappedAll_eq, asReadAll_eq]

@[simp]
theorem insertedCount_group (d : Delimiter) (o c : Pos) (content : List Tree) :
    insertedCount wrapper (.group d o content c) = (content.map (insertedCount wrapper)).sum := by
  simp [insertedCount, insertedCounts_eq]

@[simp]
theorem insertedCount_arguments (w : List TokenTree) (read : List Tree) :
    insertedCount wrapper (.arguments w read) = (read.map (insertedCount wrapper)).sum := by
  simp [insertedCount, insertedCounts_eq]

/-! ### Trees without calls of the runtime -/

mutual

theorem unwrapped_of_namesNoRuntime (t : Tree) (h : namesNoRuntime t = true) : unwrapped wrapper t = t := by
  cases t with
  | node k cs =>
    rw [unwrapped_node (isInserted_of_runtimeCall? (runtimeCall?_of_namesNoRuntime h))]
    rw [unwrapped_map_of_namesNoRuntime cs (everyNode_children h)]
  | group d o content c =>
    rw [unwrapped, unwrappedAll_eq, unwrapped_map_of_namesNoRuntime content (everyNode_content h)]
  | arguments w read =>
    rw [unwrapped, unwrappedAll_eq, unwrapped_map_of_namesNoRuntime read (everyNodes_iff.mp h)]
  | leaf l => simp [unwrapped]
  | tokens ts => simp [unwrapped]

theorem unwrapped_map_of_namesNoRuntime (ts : List Tree) (h : ∀ t ∈ ts, namesNoRuntime t = true) :
    ts.map (unwrapped wrapper) = ts := by
  cases ts with
  | nil => rfl
  | cons t ts =>
    rw [List.map_cons, unwrapped_of_namesNoRuntime t (h t (by simp)),
      unwrapped_map_of_namesNoRuntime ts fun u hu => h u (by simp [hu])]

end

mutual

theorem insertedCount_of_namesNoRuntime (t : Tree) (h : namesNoRuntime t = true) : insertedCount wrapper t = 0 := by
  cases t with
  | node k cs =>
    rw [insertedCount_node (isInserted_of_runtimeCall? (runtimeCall?_of_namesNoRuntime h))]
    exact insertedCount_sum_of_namesNoRuntime cs (everyNode_children h)
  | group d o content c =>
    rw [insertedCount_group]
    exact insertedCount_sum_of_namesNoRuntime content (everyNode_content h)
  | arguments w read =>
    rw [insertedCount_arguments]
    exact insertedCount_sum_of_namesNoRuntime read (everyNodes_iff.mp h)
  | leaf l => simp [insertedCount]
  | tokens ts => simp [insertedCount]

theorem insertedCount_sum_of_namesNoRuntime (ts : List Tree) (h : ∀ t ∈ ts, namesNoRuntime t = true) :
    (ts.map (insertedCount wrapper)).sum = 0 := by
  cases ts with
  | nil => rfl
  | cons t ts =>
    rw [List.map_cons, List.sum_cons, insertedCount_of_namesNoRuntime t (h t (by simp)),
      insertedCount_sum_of_namesNoRuntime ts fun u hu => h u (by simp [hu])]

end

theorem bare_of_namesNoRuntime {t : Tree} (h : namesNoRuntime t = true) : bare wrapper t = asRead t := by
  rw [bare, unwrapped_of_namesNoRuntime t h]

end

/-! ### Wrapped trees -/

namespace CallOptions

section
variable {options : CallOptions} {function : String}

/-- With the children wrapped, a node that is no call of the runtime is still what it was, and as many calls were put in
    as were put into the children. -/
theorem map_spec {k : Kind} {cs : List Tree} (hr : runtimeCall? (.node k cs) = none)
    (ih : ∀ c ∈ cs, bare options.wrapper (options.wrapTree function c) = bare options.wrapper c) :
    bare options.wrapper (.node k (cs.map (options.wrapTree function))) = bare options.wrapper (.node k cs) ∧
    insertedCount options.wrapper (.node k (cs.map (options.wrapTree function))) =
      (cs.map fun c => insertedCount options.wrapper (options.wrapTree function c)).sum := by
  have hnew : runtimeCall? (.node k (cs.map (options.wrapTree function))) = none := by rw [runtimeCall?_map, hr]
  rw [bare_node (isInserted_of_runtimeCall? hr), bare_node (isInserted_of_runtimeCall? hnew),
    insertedCount_node (isInserted_of_runtimeCall? hnew), List.map_map, List.map_map]
  refine ⟨?_, rfl⟩
  rw [List.map_congr_left (f := bare options.wrapper ∘ options.wrapTree function) ih]

/-- With the accepted calls inside it wrapped, a tree is still what it was, and as many calls were put in as were
    put into its parts. -/
theorem wrapInside_spec {t : Tree} (hr : namesNoRuntime t = true)
    (ih : ∀ p ∈ parts t, bare options.wrapper (options.wrapTree function p) = bare options.wrapper p) :
    bare options.wrapper (options.wrapInside function t) = bare options.wrapper t ∧
    insertedCount options.wrapper (options.wrapInside function t) =
      ((parts t).map fun p => insertedCount options.wrapper (options.wrapTree function p)).sum := by
  have hzero : ∀ c, namesNoRuntime c = true → insertedCount options.wrapper c = 0 := insertedCount_of_namesNoRuntime
  have hgenerated := generatedCall?_of_namesNoRuntime hr
  have hform := options.exchange_wrapInside function t
  generalize hnew : (parts t).map (options.wrapTree function) = new at hform
  generalize options.wrapInside function t = t', parts t = ps at hform hnew ih ⊢
  cases hform with
  | repeated attrs elem elem' d o c rest =>
    cases hnew
    have hchildren := everyNode_children hr
    have hrest := everyNode_content (hchildren (.group d o (elem :: rest) c) (by simp))
    have hsum : (rest.map (insertedCount options.wrapper)).sum = 0 :=
      insertedCount_sum_of_namesNoRuntime rest fun u hu => hrest u (by simp [hu])
    simp at ih
    simp [bare_node, insertedCount_node, ih, hzero attrs (hchildren _ (by simp)), hsum]
  | forLoop attrs label f pat i =>
    cases hnew
    have hchildren := everyNode_children hr
    simp at ih
    simp [bare_node, insertedCount_node, ih, hzero label (hchildren _ (by simp)), hzero f (hchildren _ (by simp)),
      hzero i (hchildren _ (by simp))]
    omega
  | whileLoop attrs label w =>
    cases hnew
    have hchildren := everyNode_children hr
    simp at ih
    simp [bare_node, insertedCount_node, ih, hzero label (hchildren _ (by simp)), hzero w (hchildren _ (by simp))]
    omega
  | matched attrs m =>
    cases hnew
    have hchildren := everyNode_children hr
    simp at ih
    simp [bare_node, insertedCount_node, ih, hzero m (hchildren _ (by simp))]
    omega
  | closed | leaf | tokens => exact ⟨rfl, hzero _ hr⟩
  | hidden hg => cases hg.symm.trans hgenerated
  | body hg => cases hg.symm.trans hgenerated
  | awaitedBody attrs dot await hg => cases hg.symm.trans hgenerated
  | @awaited attrs dot await l =>
    cases hnew
    -- The call under an `await` is not itself a part, so that it is taken apart by hand.
    have hchildren := everyNode_children hr
    obtain ⟨hbare, hcount⟩ := map_spec (runtimeCall?_of_namesNoRuntime (hchildren (.node l ps) (by simp))) ih
    simp [bare_node, insertedCount_node, hbare, hcount, hzero attrs (hchildren _ (by simp)),
      hzero dot (hchildren _ (by simp)), hzero await (hchildren _ (by simp))]
  | children =>
    cases hnew
    exact map_spec (runtimeCall?_of_namesNoRuntime hr) ih
  | group | arguments =>
    cases hnew
    simp
    exact ⟨ih, rfl⟩

theorem isSiteBlock_toStatic (site : Site) : isSiteBlock site.toStatic = true := by
  rfl

theorem wrapped_of_isCallee {wrapper : Tree} (hw : isCallee wrapper = true) (site : Site) (call : Tree) :
    wrapped wrapper site call = Make.call (Make.rootPath ["shallow_runtime", "finish"] site.start)
      [Make.call (.node .pathExpr [.noAttrs, wrapper]) [site.toStatic], Make.symbol "," site.start, call] site.start := by
  simp [wrapped, guardArgs, hw]
  rfl

theorem isInserted_wrapped {wrapper : Tree} (hw : isCallee wrapper = true) (site : Site) (call : Tree) :
    isInserted wrapper (wrapped wrapper site call) = true := by
  rw [wrapped_of_isCallee hw]
  have hsame := Tree.same_refl wrapper
  have hsite := isSiteBlock_toStatic site
  simp only [isInserted, Make.call, Make.parens, Tree.list, Tree.noAttrs, isGuard, hsame, hsite]
  rfl

theorem bare_wrapped {wrapper : Tree} (hw : isCallee wrapper = true) (site : Site) (call : Tree) :
    bare wrapper (wrapped wrapper site call) = bare wrapper call := by
  have hi := isInserted_wrapped hw site call
  rw [wrapped_of_isCallee hw] at hi ⊢
  simp only [Make.call, Make.parens, Tree.list] at hi ⊢
  rw [bare, unwrapped, if_pos hi]
  rfl

theorem insertedCount_wrapped {wrapper : Tree} (hw : isCallee wrapper = true) (site : Site) (call : Tree) :
    insertedCount wrapper (wrapped wrapper site call) = 1 + insertedCount wrapper call := by
  have hi := isInserted_wrapped hw site call
  rw [wrapped_of_isCallee hw] at hi ⊢
  simp only [Make.call, Make.parens, Tree.list] at hi ⊢
  rw [insertedCount, if_pos hi]

/-- Taking out what wrapping puts in gives the tree before, and as much is put in as calls are accepted. -/
theorem wrapTree_spec {t : Tree} (hr : namesNoRuntime t = true)
    (hw : ∀ c ∈ (visits t).list, options.acceptsCall function c = true → isCallee options.wrapper = true) :
    bare options.wrapper (options.wrapTree function t) = bare options.wrapper t ∧
    insertedCount options.wrapper (options.wrapTree function t) = options.acceptedCount function (visits t) := by
  induction t using parts_induction with
  | step t ih =>
    have hinside : ∀ p ∈ parts t, bare options.wrapper (options.wrapTree function p) = bare options.wrapper p ∧
        insertedCount options.wrapper (options.wrapTree function p) = options.acceptedCount function (visits p) :=
      fun p hp => ih p hp (everyNode_parts hr hp) fun c hc => hw c (mem_visits_of_parts hp hc)
    -- First the calls inside, then the call itself around what became of them.
    obtain ⟨hbare, hcount⟩ := wrapInside_spec hr fun p hp => (hinside p hp).1
    rw [List.map_congr_left fun p hp => (hinside p hp).2, ← acceptedCount_joined] at hcount
    rw [wrapTree_eq, visits_eq]
    cases hsite : site? function t with
    | none =>
      have ha := isAsked_of_no_site hsite
      rw [ha]
      exact ⟨hbare, hcount⟩
    | some site =>
      obtain ⟨ha, hof⟩ := isAsked_of_site hsite
      rw [ha]
      cases hacc : options.accepts site.target with
      | true =>
        simp only [hacc, ↓reduceIte]
        have hcall : options.acceptsCall function t = true := by simp [acceptsCall, hof, hacc]
        have hcallee := hw t (by rw [visits_eq, ha]; simp [Calls.list]) hcall
        refine ⟨(bare_wrapped hcallee _ _).trans hbare, (insertedCount_wrapped hcallee _ _).trans ?_⟩
        simp [hcount, acceptedCount, Calls.list, hcall]
        omega
      | false =>
        simp only [hacc, Bool.false_eq_true, ↓reduceIte]
        have hcall : options.acceptsCall function t = false := by simp [acceptsCall, hof, hacc]
        refine ⟨hbare, hcount.trans ?_⟩
        simp [acceptedCount, Calls.list, hcall]

/-! ### Outcomes -/

theorem haltOf_eq_none {calls : Calls} : options.haltOf function calls = none ↔
    ∀ c ∈ calls.list, hiddenHalt function c = none ∧ options.guardHalt function c = none := by
  induction calls with
  | nil => simp [haltOf, Calls.list]
  | cons e inside rest ihi ihr =>
    simp only [haltOf, Option.or_eq_none_iff, ihi, ihr, Calls.list, List.mem_cons, List.mem_append]
    grind

theorem haltOf_eq_some {calls : Calls} {halt : Halt} (h : options.haltOf function calls = some halt) :
    ∃ c ∈ calls.list, hiddenHalt function c = some halt ∨ options.guardHalt function c = some halt := by
  induction calls with
  | nil => cases h
  | cons e inside rest ihi ihr =>
    simp only [haltOf, Option.or_eq_some_iff] at h
    simp only [Calls.list, List.mem_cons, List.mem_append]
    grind

/-- The word `try` alone is a path, but is not read as one that is called. -/
theorem guardArgs_try (pos : Pos) (site : Tree) :
    guardArgs (Make.path false ["try"] pos) site = .error (.expected "an expression" false) := by
  have htokens : (Make.path false ["try"] pos).toTokens ++ (Make.parens [site]).toTokens =
      [.ident "try" pos, .group .paren Pos.none (Tree.toTokens.toTokensAll [site]) Pos.none] := rfl
  have hcallee : isCallee (Make.path false ["try"] pos) = false := rfl
  rw [guardArgs, hcallee, htokens]
  rfl

/-- Whether the generic arguments of a path, if it has any, have two colons in front. -/
def isTurbofish (path : Tree) : Prop := isCallee path = true ∨ ∃ pos, path = Make.path false ["try"] pos

/-- If the call that takes the place of a call can be read, so can the wrapper called on the site. -/
theorem guardArgs_of_guardHalt {c : Tree} {site : Site} (hsite : Site.of? function c = some site)
    (hacc : options.accepts site.target = true) (hh : options.guardHalt function c = none) :
    ∃ args, guardArgs options.wrapper site.toStatic = .ok args := by
  rw [guardHalt, hsite, Option.bind_some, if_pos hacc, Option.map_eq_none_iff, unreadable?] at hh
  cases hargs : guardArgs options.wrapper site.toStatic with
  | error fault => simp [hargs] at hh
  | ok args => exact ⟨args, rfl⟩

theorem isCallee_of_guardHalt {c : Tree} (hw : isTurbofish options.wrapper)
    (hh : options.guardHalt function c = none) (ha : options.acceptsCall function c = true) :
    isCallee options.wrapper = true := by
  obtain hw | ⟨pos, hw⟩ := hw
  · exact hw
  · obtain ⟨site, hsite, hacc⟩ := (Option.any_eq_true _ _).mp ha
    obtain ⟨args, hargs⟩ := guardArgs_of_guardHalt hsite hacc hh
    rw [hw, guardArgs_try] at hargs
    cases hargs

theorem wrapBlock_eq (options : CallOptions) (function : String) (block : Tree) :
    options.wrapBlock function block =
      ((options.wrapTree function block, options.acceptedCount function (visits block)),
        options.haltOf function (visits block)) := by
  have h := options.walk_wraps function block 0 none
  rw [Nat.zero_add, Option.none_or] at h
  exact h

/-- The attributes of a function after calls of it were wrapped: unreachable code is allowed if any were and if it was
    not allowed yet. -/
def attrsAfter (f : Function) (count : Nat) : List Tree :=
  let allow := Function.listAttr "allow" "unreachable_code"
  if 0 < count ∧ f.hasAttr allow = false then f.attrs ++ [allow] else f.attrs

theorem apply_eq (options : CallOptions) (name : String) {f : Function} {body : Tree} (hc : f.isConst = false)
    (hb : f.body = some body) : options.apply name f = (match options.wrapBlock name body with
      | (_, some halt) => .error halt
      | ((block, count), none) => .ok (⟨attrsAfter f count, f.vis, f.sig, some block⟩, count)) := by
  rw [apply, hc, hb]
  simp only [Bool.false_eq_true, ↓reduceIte]
  generalize options.wrapBlock name body = result
  obtain ⟨⟨block, count⟩, halt⟩ := result
  cases halt with
  | some halt => rfl
  | none =>
    have hattr : ({ f with body := some block } : Function).hasAttr (Function.listAttr "allow" "unreachable_code") =
      f.hasAttr (Function.listAttr "allow" "unreachable_code") := rfl
    cases count with
    | zero => simp [attrsAfter]
    | succ n =>
      cases ha : f.hasAttr (Function.listAttr "allow" "unreachable_code") <;>
        simp [attrsAfter, Function.allowUnreachable, hattr, ha]

/-- Functions that are not constant keep their code. Either a call stops the wrapping, or the calls put into the body
    can be taken out again to give the body before, as many were put in as are counted, and of all the rest only
    unreachable code is allowed, if any call was put in and if it was not allowed yet. -/
theorem apply_keeps_code (options : CallOptions) (name : String) {f : Function} {body : Tree}
    (hc : f.isConst = false) (hb : f.body = some body) (hr : namesNoRuntime body = true)
    (hw : isTurbofish options.wrapper) :
    (∃ halt, options.apply name f = .error halt ∧
      ∃ c ∈ (visits body).list, hiddenHalt name c = some halt ∨ options.guardHalt name c = some halt) ∨
    ((∀ c ∈ (visits body).list, hiddenHalt name c = none ∧ options.guardHalt name c = none) ∧
      ∃ block count, options.wrapBlock name body = ((block, count), none) ∧
        options.apply name f = .ok (⟨attrsAfter f count, f.vis, f.sig, some block⟩, count) ∧
        asRead (unwrapped options.wrapper block) = asRead body ∧
        insertedCount options.wrapper block = count) := by
  have hblock := wrapBlock_eq options name body
  have happly := apply_eq options name hc hb
  cases hh : options.haltOf name (visits body) with
  | some halt =>
    refine .inl ⟨halt, ?_, haltOf_eq_some hh⟩
    rw [happly, hblock, hh]
  | none =>
    have hnone := haltOf_eq_none.mp hh
    -- A guard in front of an accepted call could be read, so that the wrapper can be called as it is written.
    have hcallee : ∀ c ∈ (visits body).list, options.acceptsCall name c = true → isCallee options.wrapper = true :=
      fun c hcc ha => isCallee_of_guardHalt hw (hnone c hcc).2 ha
    obtain ⟨hbare, hcount⟩ := wrapTree_spec hr hcallee
    rw [hh] at hblock
    refine .inr ⟨hnone, _, _, hblock, ?_, hbare.trans (bare_of_namesNoRuntime hr), hcount⟩
    rw [happly, hblock]

/-- The function `fn f() { run(a().b()); }`, all of whose calls are wrapped by `w`. -/
theorem apply_keeps_code_nested :
    let chain : Tree := .node .methodCallExpr [.noAttrs, Make.call (Make.nameExpr "a") [], Make.symbol ".", Make.word "b",
      .absent, Make.parens [.list []]]
    let body := Make.block [.node .exprStmt [Make.call (Make.nameExpr "run") [chain], Make.symbol ";"]]
    let sig : Tree := .node .signature [.absent, .absent, .absent, .absent, Make.word "fn", Make.word "f", .absent,
      Make.parens [.list [], .absent], .absent, .absent]
    let options : CallOptions := { wrapper := Make.path false ["w"] }
    ∃ block count, options.apply "f" ⟨[], .absent, sig, some body⟩ = .ok (⟨attrsAfter ⟨[], .absent, sig, some body⟩ count,
      .absent, sig, some block⟩, count) ∧
      asRead (unwrapped options.wrapper block) = asRead body ∧ insertedCount options.wrapper block = count := by
  intro chain body sig options
  rcases apply_keeps_code options "f" (f := ⟨[], .absent, sig, some body⟩) rfl rfl rfl (.inl rfl) with
    ⟨halt, herr, -⟩ | ⟨-, block, count, -, hok, hsame, hcount⟩
  · have hok : (options.apply "f" ⟨[], .absent, sig, some body⟩).isOk = true := by decide +kernel +zetaReduce
    rw [herr] at hok
    cases hok
  · exact ⟨block, count, hok, hsame, hcount⟩

end

end CallOptions

end CallProbe.Probe
