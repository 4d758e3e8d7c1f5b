import CallProbe.Call.Walk
import Mathlib.Data.List.Basic

/-! # One step of a walk

A walk over a tree does the same at every tree: it may ask about it, it visits some of its parts one after
the other, and it puts what became of them back in their places. `parts` says which parts are visited and in
which order, `withParts` puts them back, and `site?` says what is asked. `Exchange` has the forms that a tree may
have for this, one constructor each, so that a proof about other trees in the places of the parts goes by cases of
it. `walk_eq` is the only place that looks into the definition of a walk; what holds of every walk follows from it
by induction over `parts`. -/

namespace CallProbe.Call

open Source

/-! ### Parts -/

/-- The last argument of a list of arguments with their separators. -/
def lastArg : List Tree → List Tree
  | [] => []
  | [t] => [t]
  | [t, _] => [t]
  | _ :: _ :: rest => lastArg rest

def withLastArg (new : List Tree) : List Tree → List Tree
  | [] => []
  | [_] => new
  | [_, sep] => new ++ [sep]
  | t :: sep :: rest => t :: sep :: withLastArg new rest

def lastArgOf : List Tree → List Tree
  | [_, _, .group _ _ [.node .list args] _] => lastArg args
  | _ => []

def withLastArgOf (new : List Tree) : List Tree → List Tree
  | [attrs, callee, .group d o [.node .list args] c] => [attrs, callee, .group d o [.node .list (withLastArg new args)] c]
  | ts => ts

/-- The children of what is awaited, given the children of the whole. -/
def awaitedParts : List Tree → List Tree
  | _ :: .node _ cs :: _ => cs
  | _ => []

def withAwaited (new : List Tree) : List Tree → List Tree
  | attrs :: .node k _ :: rest => attrs :: .node k new :: rest
  | ts => ts

def awaitedLastArg : List Tree → List Tree
  | _ :: .node _ cs :: _ => lastArgOf cs
  | _ => []

def withAwaitedLastArg (new : List Tree) : List Tree → List Tree
  | attrs :: .node k cs :: rest => attrs :: .node k (withLastArgOf new cs) :: rest
  | ts => ts

/-- The children of a node that are visited, if it is no loop, no `match` and no repeated array: of a call that
    an earlier probe has put there the code of the function, and of an awaited call the children of the call. -/
def childrenVisited (k : Kind) (cs : List Tree) : List Tree :=
  if isClosed k then []
  else match generatedCall? (.node k cs) with
    | some name => if !holdsBody name then [] else if k = .awaitExpr then awaitedLastArg cs else lastArgOf cs
    | none => if k = .awaitExpr ∧ (callOf? (.node k cs)).isSome then awaitedParts cs else cs

/-- The children of a node, with others in the places of those that are visited. -/
def withChildren (k : Kind) (cs new : List Tree) : List Tree :=
  if isClosed k then cs
  else match generatedCall? (.node k cs) with
    | some name => if !holdsBody name then cs else if k = .awaitExpr then withAwaitedLastArg new cs else withLastArgOf new cs
    | none => if k = .awaitExpr ∧ (callOf? (.node k cs)).isSome then withAwaited new cs else new

/-- The parts of a tree that are visited, in the order of the visits. -/
def parts : Tree → List Tree
  | .node .repeatExpr [_, .group _ _ (elem :: _) _] => [elem]
  | .node .forExpr [attrs, _, _, pat, _, iterated, .node .block [.group _ _ [inner, stmts] _]] =>
    [attrs, inner, pat, iterated, stmts]
  | .node .whileExpr [attrs, _, _, cond, .node .block [.group _ _ [inner, stmts] _]] => [attrs, inner, cond, stmts]
  | .node .matchExpr [attrs, _, value, .group _ _ [inner, arms] _] => [attrs, inner, value, arms]
  | .node k cs => childrenVisited k cs
  | .group _ _ content _ => content
  | .arguments _ read => read
  | _ => []

/-- A tree with other parts in the places of those that are visited. -/
def withParts (t : Tree) (new : List Tree) : Tree :=
  match t with
  | .node .repeatExpr [attrs, .group d o (_ :: rest) c] => .node .repeatExpr [attrs, .group d o (new ++ rest) c]
  | .node .forExpr [_, label, f, _, i, _, .node .block [.group d o [_, _] c]] => match new with
    | [attrs, inner, pat, iterated, stmts] =>
      .node .forExpr [attrs, label, f, pat, i, iterated, .node .block [.group d o [inner, stmts] c]]
    | _ => t
  | .node .whileExpr [_, label, w, _, .node .block [.group d o [_, _] c]] => match new with
    | [attrs, inner, cond, stmts] => .node .whileExpr [attrs, label, w, cond, .node .block [.group d o [inner, stmts] c]]
    | _ => t
  | .node .matchExpr [_, m, _, .group d o [_, _] c] => match new with
    | [attrs, inner, value, arms] => .node .matchExpr [attrs, m, value, .group d o [inner, arms] c]
    | _ => t
  | .node k cs => .node k (withChildren k cs new)
  | .group d o _ c => .group d o new c
  | .arguments _ _ => .arguments (new.flatMap Tree.written) new
  | t => t

/-- What a function sees of a list of arguments with another last one, if it sees the same in the last one. -/
theorem map_withLastArg {α : Type} {f : Tree → α} {new ts : List Tree} (h : new.map f = (lastArg ts).map f) :
    (withLastArg new ts).map f = ts.map f := by
  fun_induction lastArg ts with
  | case1 => rfl
  | case2 t => simpa [withLastArg] using h
  | case3 t sep => simp [withLastArg, h]
  | case4 t sep rest hrest ih =>
    rw [withLastArg]
    · simp [ih h]
    · exact hrest

/-- A function that sees of lists and groups only what it sees of their parts. -/
structure SeesParts {α : Type} (f : Tree → α) : Prop where
  list {cs new : List Tree} (h : new.map f = cs.map f) : f (.node .list new) = f (.node .list cs)
  group {d : Delimiter} {o c : Pos} {content new : List Tree} (h : new.map f = content.map f) :
    f (.group d o new c) = f (.group d o content c)

theorem map_withLastArgOf {α : Type} {f : Tree → α} (hf : SeesParts f) {new cs : List Tree}
    (h : new.map f = (lastArgOf cs).map f) : (withLastArgOf new cs).map f = cs.map f := by
  fun_cases lastArgOf cs with
  | case1 attrs callee d o args c =>
    have hargs : f (.group d o [.node .list (withLastArg new args)] c) = f (.group d o [.node .list args] c) :=
      hf.group (by rw [List.map_singleton, List.map_singleton, hf.list (map_withLastArg h)])
    simp [withLastArgOf, hargs]
  | case2 => simp [withLastArgOf]

/-- Whether a tree is a loop, a `match` or a repeated array, whose parts are visited in an order of their own. -/
def hasOwnOrder : Tree → Bool
  | .node .repeatExpr [_, .group _ _ (_ :: _) _] => true
  | .node .forExpr [_, _, _, _, _, _, .node .block [.group _ _ [_, _] _]] => true
  | .node .whileExpr [_, _, _, _, .node .block [.group _ _ [_, _] _]] => true
  | .node .matchExpr [_, _, _, .group _ _ [_, _] _] => true
  | _ => false

theorem forms_of_hasOwnOrder {t : Tree} (h : hasOwnOrder t = true) :
    (∃ attrs d o elem rest c, t = .node .repeatExpr [attrs, .group d o (elem :: rest) c]) ∨
    (∃ attrs label f pat i iterated d o inner stmts c,
      t = .node .forExpr [attrs, label, f, pat, i, iterated, .node .block [.group d o [inner, stmts] c]]) ∨
    (∃ attrs label w cond d o inner stmts c,
      t = .node .whileExpr [attrs, label, w, cond, .node .block [.group d o [inner, stmts] c]]) ∨
    ∃ attrs m value d o inner arms c, t = .node .matchExpr [attrs, m, value, .group d o [inner, arms] c] := by
  rw [hasOwnOrder.eq_def] at h
  split at h
  · exact .inl ⟨_, _, _, _, _, _, rfl⟩
  · exact .inr (.inl ⟨_, _, _, _, _, _, _, _, _, _, _, rfl⟩)
  · exact .inr (.inr (.inl ⟨_, _, _, _, _, _, _, _, _, rfl⟩))
  · exact .inr (.inr (.inr ⟨_, _, _, _, _, _, _, _, rfl⟩))
  · cases h

theorem hasOwnOrder_of_kind {k : Kind} {cs : List Tree}
    (hk : [Kind.repeatExpr, .forExpr, .whileExpr, .matchExpr].contains k = false) : hasOwnOrder (.node k cs) = false := by
  refine Bool.eq_false_iff.mpr fun h => ?_
  rcases forms_of_hasOwnOrder h with ⟨_, _, _, _, _, _, he⟩ | ⟨_, _, _, _, _, _, _, _, _, _, _, he⟩ |
    ⟨_, _, _, _, _, _, _, _, _, he⟩ | ⟨_, _, _, _, _, _, _, _, he⟩
  all_goals
    cases he
    cases hk

/-- The forms of trees that a walk tells apart. -/
theorem visitCases {motive : Tree → Prop}
    (repeated : ∀ attrs d o elem rest c, motive (.node .repeatExpr [attrs, .group d o (elem :: rest) c]))
    (forLoop : ∀ attrs label f pat i iterated d o inner stmts c,
      motive (.node .forExpr [attrs, label, f, pat, i, iterated, .node .block [.group d o [inner, stmts] c]]))
    (whileLoop : ∀ attrs label w cond d o inner stmts c,
      motive (.node .whileExpr [attrs, label, w, cond, .node .block [.group d o [inner, stmts] c]]))
    (matched : ∀ attrs m value d o inner arms c,
      motive (.node .matchExpr [attrs, m, value, .group d o [inner, arms] c]))
    (node : ∀ k cs, hasOwnOrder (.node k cs) = false → motive (.node k cs))
    (group : ∀ d o content c, motive (.group d o content c))
    (arguments : ∀ written read, motive (.arguments written read))
    (leaf : ∀ l, motive (.leaf l)) (tokens : ∀ ts, motive (.tokens ts)) (t : Tree) : motive t := by
  cases t with
  | node k cs =>
    cases h : hasOwnOrder (.node k cs) with
    | false => exact node k cs h
    | true =>
      rcases forms_of_hasOwnOrder h with ⟨_, _, _, _, _, _, he⟩ | ⟨_, _, _, _, _, _, _, _, _, _, _, he⟩ |
        ⟨_, _, _, _, _, _, _, _, _, he⟩ | ⟨_, _, _, _, _, _, _, _, he⟩
      · rw [he]
        exact repeated ..
      · rw [he]
        exact forLoop ..
      · rw [he]
        exact whileLoop ..
      · rw [he]
        exact matched ..
  | group d o content c => exact group d o content c
  | arguments written read => exact arguments written read
  | leaf l => exact leaf l
  | tokens ts => exact tokens ts

theorem parts_node {k : Kind} {cs : List Tree} (h : hasOwnOrder (.node k cs) = false) :
    parts (.node k cs) = childrenVisited k cs := by
  rw [parts]
  all_goals
    intros
    subst_vars
    cases h

theorem withParts_node {k : Kind} {cs : List Tree} (h : hasOwnOrder (.node k cs) = false) (new : List Tree) :
    withParts (.node k cs) new = .node k (withChildren k cs new) := by
  rw [withParts]
  all_goals
    intros
    subst_vars
    cases h

theorem kind?_withParts (t : Tree) (new : List Tree) : (withParts t new).kind? = t.kind? := by
  cases t using visitCases with
  | node k cs hn =>
    rw [withParts_node hn]
    rfl
  | repeated | group | arguments | leaf | tokens => rfl
  | forLoop | whileLoop | matched =>
    unfold withParts
    dsimp only
    split <;> rfl

theorem kind?_eq_some {t : Tree} {k : Kind} (h : t.kind? = some k) : ∃ cs, t = .node k cs := by
  cases t with
  | node l cs =>
    cases h
    exact ⟨cs, rfl⟩
  | _ => cases h

/-- The site that is asked about at a tree: that of a call which no earlier probe has put there. -/
def site? (function : String) (t : Tree) : Option Site :=
  if (generatedCall? t).isSome then none else Site.of? function t

/-! ### Which trees are asked about -/

def isCallKind (k : Kind) : Bool := [Kind.callExpr, .methodCallExpr, .awaitExpr].contains k

theorem callOf?_of_kind {k : Kind} {cs : List Tree} (hk : isCallKind k = false) : callOf? (.node k cs) = none := by
  unfold callOf? Target.ofCall?
  split
  · rename_i he
    cases he
    cases hk
  · split
    · rename_i he
      cases he
      cases hk
    · rename_i he
      cases he
      cases hk
    · rfl

theorem generatedCall?_of_kind {k : Kind} {cs : List Tree} (hk : isCallKind k = false) :
    generatedCall? (.node k cs) = none := by
  unfold generatedCall? runtimeCall?
  split
  · rename_i he
    cases he
    cases hk
  · split
    · rename_i he
      cases he
      cases hk
    · rfl

theorem isCallKind_of_closed {k : Kind} (hk : isClosed k = true) : isCallKind k = false := by
  simp only [isClosed, List.contains_iff_mem, List.mem_cons, List.not_mem_nil, or_false] at hk
  rcases hk with rfl | rfl | rfl | rfl | rfl | rfl | rfl | rfl | rfl | rfl | rfl | rfl | rfl | rfl | rfl | rfl | rfl <;> rfl

theorem Site.of?_isSome (function : String) (e : Tree) : (Site.of? function e).isSome = (callOf? e).isSome := by
  simp [Site.of?]

@[simp]
theorem site?_of_kind {function : String} {k : Kind} {cs : List Tree} (hk : isCallKind k = false) :
    site? function (.node k cs) = none := by
  simp [site?, Site.of?, callOf?_of_kind hk]

@[simp]
theorem site?_leaf {function : String} {l : Leaf} : site? function (.leaf l) = none := rfl

@[simp]
theorem site?_tokens {function : String} {ts : List TokenTree} : site? function (.tokens ts) = none := rfl

@[simp]
theorem site?_group {function : String} {d : Delimiter} {o c : Pos} {cs : List Tree} :
    site? function (.group d o cs c) = none := rfl

@[simp]
theorem site?_arguments {function : String} {w : List TokenTree} {r : List Tree} :
    site? function (.arguments w r) = none := rfl

/-! ### Other trees in the places of the parts -/

theorem hasOwnOrder_of_closed {k : Kind} {cs : List Tree} (hk : isClosed k = true) : hasOwnOrder (.node k cs) = false :=
  hasOwnOrder_of_kind (by cases k <;> first | rfl | cases hk)

theorem awaited_of_callOf? {cs : List Tree} (h : (callOf? (.node .awaitExpr cs)).isSome = true) :
    ∃ attrs k base dot await, cs = [attrs, .node k base, dot, await] := by
  unfold callOf? at h
  split at h
  · rename_i attrs base dot await he
    cases he
    cases base with
    | node k base => exact ⟨attrs, k, base, dot, await, rfl⟩
    | _ => cases h
  · simp [Target.ofCall?] at h

theorem callExpr_of_runtimeCall? {t : Tree} {name : List String} (h : runtimeCall? t = some name) :
    ∃ attrs callee args, t = .node .callExpr [attrs, callee, args] := by
  unfold runtimeCall? at h
  split at h
  · exact ⟨_, _, _, rfl⟩
  · cases h

/-- A node that an earlier probe has put there is a call of the runtime or an awaited one. -/
theorem forms_of_generatedCall? {k : Kind} {cs : List Tree} {name : List String} (h : generatedCall? (.node k cs) = some name) :
    (k = .callExpr ∧ runtimeCall? (.node .callExpr cs) = some name) ∨ ∃ attrs call dot await, k = .awaitExpr ∧
      cs = [attrs, .node .callExpr call, dot, await] ∧ runtimeCall? (.node .callExpr call) = some name := by
  unfold generatedCall? at h
  split at h
  · rename_i he
    cases he
    obtain ⟨_, _, _, rfl⟩ := callExpr_of_runtimeCall? h
    exact .inr ⟨_, _, _, _, rfl, rfl, h⟩
  · obtain ⟨_, _, _, he⟩ := callExpr_of_runtimeCall? h
    cases he
    exact .inl ⟨rfl, h⟩

/-- With `new` in the places of its visited parts `ps`, the tree `t` becomes `t'`. There is one case for each form of
    trees that a walk tells apart. -/
inductive Exchange : (t : Tree) → (ps new : List Tree) → (t' : Tree) → Prop
  | repeated (attrs elem elem' : Tree) (d : Delimiter) (o c : Pos) (rest : List Tree) :
    Exchange (.node .repeatExpr [attrs, .group d o (elem :: rest) c]) [elem] [elem']
      (.node .repeatExpr [attrs, .group d o (elem' :: rest) c])
  | forLoop (attrs label f pat i iterated inner stmts : Tree) (d : Delimiter) (o c : Pos)
      (attrs' inner' pat' iterated' stmts' : Tree) :
    Exchange (.node .forExpr [attrs, label, f, pat, i, iterated, .node .block [.group d o [inner, stmts] c]])
      [attrs, inner, pat, iterated, stmts] [attrs', inner', pat', iterated', stmts']
      (.node .forExpr [attrs', label, f, pat', i, iterated', .node .block [.group d o [inner', stmts'] c]])
  | whileLoop (attrs label w cond inner stmts : Tree) (d : Delimiter) (o c : Pos) (attrs' inner' cond' stmts' : Tree) :
    Exchange (.node .whileExpr [attrs, label, w, cond, .node .block [.group d o [inner, stmts] c]])
      [attrs, inner, cond, stmts] [attrs', inner', cond', stmts']
      (.node .whileExpr [attrs', label, w, cond', .node .block [.group d o [inner', stmts'] c]])
  | matched (attrs m value inner arms : Tree) (d : Delimiter) (o c : Pos) (attrs' inner' value' arms' : Tree) :
    Exchange (.node .matchExpr [attrs, m, value, .group d o [inner, arms] c])
      [attrs, inner, value, arms] [attrs', inner', value', arms']
      (.node .matchExpr [attrs', m, value', .group d o [inner', arms'] c])
  | closed {k : Kind} (cs : List Tree) (hk : isClosed k = true) : Exchange (.node k cs) [] [] (.node k cs)
  /-- Code that a probe has put in, without code of the function in it. -/
  | hidden {k : Kind} {cs : List Tree} {name : List String} (hg : generatedCall? (.node k cs) = some name)
      (hb : holdsBody name = false) : Exchange (.node k cs) [] [] (.node k cs)
  | body {cs : List Tree} {name : List String} (hr : runtimeCall? (.node .callExpr cs) = some name)
      (hb : holdsBody name = true) (new : List Tree) :
    Exchange (.node .callExpr cs) (lastArgOf cs) new (.node .callExpr (withLastArgOf new cs))
  | awaitedBody {cs : List Tree} {name : List String} (attrs dot await : Tree)
      (hr : runtimeCall? (.node .callExpr cs) = some name) (hb : holdsBody name = true) (new : List Tree) :
    Exchange (.node .awaitExpr [attrs, .node .callExpr cs, dot, await]) (lastArgOf cs) new
      (.node .awaitExpr [attrs, .node .callExpr (withLastArgOf new cs), dot, await])
  | awaited {attrs dot await : Tree} {k : Kind} {cs : List Tree}
      (hg : generatedCall? (.node .awaitExpr [attrs, .node k cs, dot, await]) = none)
      (hc : (callOf? (.node .awaitExpr [attrs, .node k cs, dot, await])).isSome = true) (new : List Tree) :
    Exchange (.node .awaitExpr [attrs, .node k cs, dot, await]) cs new (.node .awaitExpr [attrs, .node k new, dot, await])
  | children {k : Kind} {cs : List Tree} (hn : hasOwnOrder (.node k cs) = false) (hk : isClosed k = false)
      (hg : generatedCall? (.node k cs) = none) (hc : k = .awaitExpr → callOf? (.node k cs) = none) (new : List Tree) :
    Exchange (.node k cs) cs new (.node k new)
  | group (d : Delimiter) (o c : Pos) (content new : List Tree) :
    Exchange (.group d o content c) content new (.group d o new c)
  | arguments (written : List TokenTree) (read new : List Tree) :
    Exchange (.arguments written read) read new (.arguments (new.flatMap Tree.written) new)
  | leaf (l : Leaf) : Exchange (.leaf l) [] [] (.leaf l)
  | tokens (ts : List TokenTree) : Exchange (.tokens ts) [] [] (.tokens ts)

theorem exchange_node {k : Kind} {cs new : List Tree} (hn : hasOwnOrder (.node k cs) = false)
    (hlength : new.length = (childrenVisited k cs).length) :
    Exchange (.node k cs) (childrenVisited k cs) new (.node k (withChildren k cs new)) := by
  unfold childrenVisited at hlength ⊢
  unfold withChildren
  split at hlength
  · rename_i hk
    rw [if_pos hk, if_pos hk, List.eq_nil_of_length_eq_zero hlength]
    exact .closed cs hk
  · rename_i hk
    rw [if_neg hk, if_neg hk]
    cases hg : generatedCall? (.node k cs) with
    | none =>
      dsimp only
      split
      · rename_i hawait
        obtain ⟨rfl, hc⟩ := hawait
        obtain ⟨attrs, l, base, dot, await, rfl⟩ := awaited_of_callOf? hc
        exact .awaited hg hc new
      · rename_i hawait
        refine .children hn (by simpa using hk) hg (fun ha => ?_) new
        simpa [ha] using hawait
    | some name =>
      rw [hg] at hlength
      dsimp only at hlength ⊢
      cases hb : holdsBody name with
      | false =>
        rw [hb] at hlength
        obtain rfl := List.eq_nil_of_length_eq_zero hlength
        exact .hidden hg hb
      | true =>
        obtain ⟨rfl, hr⟩ | ⟨attrs, call, dot, await, rfl, rfl, hr⟩ := forms_of_generatedCall? hg
        · exact .body hr hb new
        · exact .awaitedBody attrs dot await hr hb new

/-- What takes the places of the parts of a tree. -/
theorem exchange (t : Tree) {new : List Tree} (hlength : new.length = (parts t).length) :
    Exchange t (parts t) new (withParts t new) := by
  cases t using visitCases with
  | repeated =>
    obtain ⟨elem', rfl⟩ := List.length_eq_one_iff.mp hlength
    exact .repeated ..
  | forLoop =>
    obtain ⟨attrs', new, rfl⟩ := List.exists_cons_of_length_eq_add_one hlength
    obtain ⟨inner', pat', iterated', stmts', rfl⟩ := List.length_eq_four.mp (Nat.succ.inj hlength)
    exact .forLoop ..
  | whileLoop =>
    obtain ⟨attrs', inner', cond', stmts', rfl⟩ := List.length_eq_four.mp hlength
    exact .whileLoop ..
  | matched =>
    obtain ⟨attrs', inner', value', arms', rfl⟩ := List.length_eq_four.mp hlength
    exact .matched ..
  | node k cs hn =>
    rw [parts_node hn] at hlength ⊢
    rw [withParts_node hn]
    exact exchange_node hn hlength
  | group d o content c => exact .group d o c content new
  | arguments written read => exact .arguments written read new
  | leaf l =>
    rw [List.eq_nil_of_length_eq_zero hlength]
    exact .leaf l
  | tokens ts =>
    rw [List.eq_nil_of_length_eq_zero hlength]
    exact .tokens ts

/-- The form of a tree by its parts alone. -/
theorem exists_exchange (t : Tree) : ∃ t', Exchange t (parts t) (parts t) t' := ⟨_, exchange t rfl⟩

/-- There is one way only to put trees in the places of the parts. -/
theorem Exchange.unique {t t' : Tree} {ps new : List Tree} (h : Exchange t ps new t') :
    parts t = ps ∧ withParts t new = t' := by
  cases h with
  | closed cs hk =>
    have hn : hasOwnOrder (.node _ cs) = false := hasOwnOrder_of_closed hk
    rw [parts_node hn, withParts_node hn]
    simp [childrenVisited, withChildren, hk]
  | @hidden k cs name hg hb =>
    have hn : hasOwnOrder (.node k cs) = false := by
      obtain ⟨rfl, -⟩ | ⟨_, _, _, _, rfl, -⟩ := forms_of_generatedCall? hg <;> exact hasOwnOrder_of_kind rfl
    rw [parts_node hn, withParts_node hn]
    simp [childrenVisited, withChildren, hg, hb]
  | @body cs name hr hb new =>
    have hn : hasOwnOrder (.node .callExpr cs) = false := hasOwnOrder_of_kind rfl
    obtain ⟨_, _, _, he⟩ := callExpr_of_runtimeCall? hr
    cases he
    have hg : generatedCall? (.node .callExpr _) = some name := hr
    rw [parts_node hn, withParts_node hn]
    simp [childrenVisited, withChildren, isClosed, hg, hb]
  | @awaitedBody cs name attrs dot await hr hb new =>
    have hn : hasOwnOrder (.node .awaitExpr [attrs, .node .callExpr cs, dot, await]) = false := hasOwnOrder_of_kind rfl
    have hg : generatedCall? (.node .awaitExpr [attrs, .node .callExpr cs, dot, await]) = some name := hr
    rw [parts_node hn, withParts_node hn]
    simp [childrenVisited, withChildren, isClosed, hg, hb, awaitedLastArg, withAwaitedLastArg]
  | @awaited attrs dot await k _ hg hc =>
    have hn : hasOwnOrder (.node .awaitExpr [attrs, .node k ps, dot, await]) = false := hasOwnOrder_of_kind rfl
    rw [parts_node hn, withParts_node hn]
    simp [childrenVisited, withChildren, isClosed, hg, hc, awaitedParts, withAwaited]
  | @children k _ hn hk hg hc =>
    have hawait : ¬(k = .awaitExpr ∧ (callOf? (.node k ps)).isSome = true) := by
      rintro ⟨ha, hsome⟩
      rw [hc ha] at hsome
      cases hsome
    rw [parts_node hn, withParts_node hn]
    simp [childrenVisited, withChildren, hk, hg, hawait]
  | _ => exact ⟨rfl, rfl⟩

theorem Exchange.parts_eq {t t' : Tree} {ps new : List Tree} (h : Exchange t ps new t') : parts t = ps := h.unique.1

theorem Exchange.withParts_eq {t t' : Tree} {ps new : List Tree} (h : Exchange t ps new t') : withParts t new = t' :=
  h.unique.2

/-- In a tree that is still of the form it was of, the trees that were put in are the visited parts, and others can take
    their places. -/
theorem Exchange.again {t t' : Tree} {ps new : List Tree} (h : Exchange t ps new t')
    (hn : hasOwnOrder t = false → hasOwnOrder t' = false) (hg : generatedCall? t = none) (hg' : generatedCall? t' = none)
    (hc : t.kind? = some .awaitExpr → (callOf? t').isSome = (callOf? t).isSome) :
    parts t' = new ∧ ∀ newer, newer.length = new.length → withParts t' newer = withParts t newer := by
  cases h with
  | forLoop =>
    refine ⟨rfl, fun newer hlength => ?_⟩
    obtain ⟨_, newer, rfl⟩ := List.exists_cons_of_length_eq_add_one hlength
    obtain ⟨_, _, _, _, rfl⟩ := List.length_eq_four.mp (Nat.succ.inj hlength)
    rfl
  | whileLoop | matched =>
    refine ⟨rfl, fun newer hlength => ?_⟩
    obtain ⟨_, _, _, _, rfl⟩ := List.length_eq_four.mp hlength
    rfl
  | closed cs hk => exact ⟨(Exchange.closed cs hk).parts_eq, fun _ _ => rfl⟩
  | hidden hsome => cases hsome.symm.trans hg
  | body hsome => cases hsome.symm.trans hg
  | awaitedBody attrs dot await hsome => cases hsome.symm.trans hg
  | awaited _ hsome =>
    have hsome' := (hc rfl).trans hsome
    refine ⟨(Exchange.awaited hg' hsome' new).parts_eq, fun newer _ => ?_⟩
    exact (Exchange.awaited hg' hsome' newer).withParts_eq.trans (Exchange.awaited hg hsome newer).withParts_eq.symm
  | @children k _ hown hk _ hnone =>
    have hnone' (ha : k = .awaitExpr) : callOf? (.node k new) = none := by
      rw [← Option.not_isSome_iff_eq_none, hc (congrArg some ha), hnone ha]
      exact Bool.false_ne_true
    refine ⟨(Exchange.children (hn hown) hk hg' hnone' new).parts_eq, fun newer _ => ?_⟩
    exact (Exchange.children (hn hown) hk hg' hnone' newer).withParts_eq.trans
      (Exchange.children hown hk hg hnone newer).withParts_eq.symm
  | _ => exact ⟨rfl, fun _ _ => rfl⟩

/-! ### A walk is a walk over the parts -/

section
variable {σ : Type} (strategy : Strategy σ) (function : String)

theorem walkLast_eq (ts : List Tree) :
    walkLast strategy function ts = do return withLastArg (← walkAll strategy function (lastArg ts)) ts := by
  fun_induction lastArg ts with
  | case1 => simp [walkLast, walkAll, withLastArg]
  | case2 t => simp [walkLast, walkAll, withLastArg]
  | case3 t sep => simp [walkLast, walkAll, withLastArg]
  | case4 t sep rest h ih =>
    rw [walkLast, ih]
    · simp [withLastArg]
    · exact h

theorem walkLastArg_eq (ts : List Tree) :
    walkLastArg strategy function ts = do return withLastArgOf (← walkAll strategy function (lastArgOf ts)) ts := by
  fun_cases lastArgOf ts with
  | case1 => simp [walkLastArg, walkLast_eq, withLastArgOf]
  | case2 => simp [walkLastArg, withLastArgOf, walkAll]

theorem walkAwaited_eq (ts : List Tree) :
    walkAwaited strategy function ts = do return withAwaited (← walkAll strategy function (awaitedParts ts)) ts := by
  fun_cases awaitedParts ts with
  | case1 => simp [walkAwaited, withAwaited]
  | case2 => simp [walkAwaited, withAwaited, walkAll]

theorem walkAwaitedLast_eq (ts : List Tree) :
    walkAwaitedLast strategy function ts = do
      return withAwaitedLastArg (← walkAll strategy function (awaitedLastArg ts)) ts := by
  fun_cases awaitedLastArg ts with
  | case1 => simp [walkAwaitedLast, withAwaitedLastArg, walkLastArg_eq]
  | case2 => simp [walkAwaitedLast, withAwaitedLastArg, walkAll]

/-- What a walk does at a node that is no loop, no `match` and no repeated array. -/
theorem walk_node {k : Kind} {cs : List Tree} (h : hasOwnOrder (.node k cs) = false) :
    walk strategy function (.node k cs) = (do
      if isClosed k then return .node k cs
      match generatedCall? (.node k cs) with
      | some name =>
        if !holdsBody name then return .node k cs
        else if k = .awaitExpr then return .node k (← walkAwaitedLast strategy function cs)
        else return .node k (← walkLastArg strategy function cs)
      | none =>
        match Site.of? function (.node k cs) with
        | some site =>
          let accepted ← strategy.accepts site
          let cs ← if k = .awaitExpr then walkAwaited strategy function cs else walkAll strategy function cs
          conclude strategy accepted site (.node k cs)
        | none => return .node k (← walkAll strategy function cs)) := by
  rw [walk]
  all_goals
    first
    | rfl
    | intros
      subst_vars
      cases h

/-- What a walk does at a tree. -/
theorem walk_eq (t : Tree) : walk strategy function t = (match site? function t with
    | none => do return withParts t (← walkAll strategy function (parts t))
    | some site => do
      let accepted ← strategy.accepts site
      let new ← walkAll strategy function (parts t)
      conclude strategy accepted site (withParts t new)) := by
  cases t using visitCases with
  | repeated =>
    simp only [walk, bind_pure_comp, site?_of_kind (k := .repeatExpr) rfl, parts, walkAll, map_pure, withParts,
      Functor.map_map, List.cons_append, List.nil_append]
  | forLoop =>
    simp only [walk, bind_pure_comp, site?_of_kind (k := .forExpr) rfl, parts, walkAll, map_pure, Functor.map_map,
      map_bind, withParts]
  | whileLoop =>
    simp only [walk, bind_pure_comp, site?_of_kind (k := .whileExpr) rfl, parts, walkAll, map_pure, Functor.map_map,
      map_bind, withParts]
  | matched =>
    simp only [walk, bind_pure_comp, site?_of_kind (k := .matchExpr) rfl, parts, walkAll, map_pure, Functor.map_map,
      map_bind, withParts]
  | node k cs h =>
    rw [walk_node strategy function h, parts_node h]
    simp only [withParts_node h]
    by_cases hc : isClosed k
    · simp only [hc, ↓reduceIte, site?_of_kind (isCallKind_of_closed hc), childrenVisited, walkAll, withChildren,
        bind_pure_comp, map_pure]
    cases hg : generatedCall? (.node k cs) with
    | some name =>
      by_cases hb : holdsBody name
      · by_cases hk : k = .awaitExpr
        · subst hk
          simp only [hc, Bool.false_eq_true, ↓reduceIte, hb, Bool.not_true, walkAwaitedLast_eq, bind_pure_comp,
            Functor.map_map, site?, hg, Option.isSome_some, childrenVisited, withChildren]
        · simp only [hc, Bool.false_eq_true, ↓reduceIte, hb, Bool.not_true, hk, walkLastArg_eq, bind_pure_comp,
            Functor.map_map, site?, hg, Option.isSome_some, childrenVisited, withChildren]
      · simp only [hc, Bool.false_eq_true, ↓reduceIte, hb, Bool.not_false, site?, hg, Option.isSome_some,
          childrenVisited, walkAll, withChildren, bind_pure_comp, map_pure]
    | none =>
      have hcall := Site.of?_isSome function (.node k cs)
      cases hs : Site.of? function (.node k cs) with
      | none =>
        rw [hs] at hcall
        simp only [hc, Bool.false_eq_true, ↓reduceIte, bind_pure_comp, site?, hg, Option.isSome_none, hs,
          childrenVisited, ← hcall, and_false, withChildren]
      | some site =>
        rw [hs] at hcall
        by_cases hk : k = .awaitExpr
        · subst hk
          simp only [hc, Bool.false_eq_true, ↓reduceIte, walkAwaited_eq, bind_pure_comp, bind_map_left, site?, hg,
            Option.isSome_none, hs, childrenVisited, ← hcall, Option.isSome_some, and_self, withChildren]
        · simp only [hc, Bool.false_eq_true, ↓reduceIte, hk, site?, hg, Option.isSome_none, hs, childrenVisited,
            false_and, withChildren]
  | group d o content c => simp only [walk, bind_pure_comp, site?_group, parts, withParts]
  | arguments written read => simp only [walk, bind_pure_comp, site?_arguments, parts, withParts]
  | leaf l => simp only [walk, site?_leaf, parts, walkAll, withParts, bind_pure_comp, map_pure]
  | tokens ts => simp only [walk, site?_tokens, parts, walkAll, withParts, bind_pure_comp, map_pure]

/-! ### Runs of a walk -/

@[simp]
theorem walkAll_nil (n : Nat) (s : σ) : walkAll strategy function [] n s = (([], n), s) := by
  rw [walkAll]
  rfl

theorem walkAll_cons (t : Tree) (ts : List Tree) (n : Nat) (s : σ) :
    walkAll strategy function (t :: ts) n s =
      let r := walk strategy function t n s
      let rs := walkAll strategy function ts r.1.2 r.2
      ((r.1.1 :: rs.1.1, rs.1.2), rs.2) := by
  rw [walkAll]
  rfl

theorem conclude_apply (accepted : Bool) (site : Site) (call : Tree) (n : Nat) (s : σ) :
    conclude strategy accepted site call n s =
      if accepted then
        let c := strategy.replace site call s
        ((c.1, n + 1), c.2)
      else ((call, n), s) := by
  cases accepted <;> rfl

theorem walk_of_none {t : Tree} (h : site? function t = none) (n : Nat) (s : σ) :
    walk strategy function t n s =
      let r := walkAll strategy function (parts t) n s
      ((withParts t r.1.1, r.1.2), r.2) := by
  rw [walk_eq, h]
  rfl

theorem walk_of_some {t : Tree} {site : Site} (h : site? function t = some site) (n : Nat) (s : σ) :
    walk strategy function t n s =
      let a := strategy.accepts site s
      let r := walkAll strategy function (parts t) n a.2
      if a.1 then
        let c := strategy.replace site (withParts t r.1.1) r.2
        ((c.1, r.1.2 + 1), c.2)
      else ((withParts t r.1.1, r.1.2), r.2) := by
  rw [walk_eq, h]
  exact conclude_apply strategy _ site _ _ _

end

/-! ### Induction over parts -/

theorem sizeOf_lastArg {ts : List Tree} {p : Tree} (h : p ∈ lastArg ts) : sizeOf p < sizeOf ts := by
  fun_induction lastArg ts with
  | case1 => cases h
  | case2 t => exact List.sizeOf_lt_of_mem h
  | case3 t sep =>
    rw [List.mem_singleton] at h
    subst h
    simp
    omega
  | case4 t sep rest _ ih =>
    have := ih h
    simp
    omega

theorem sizeOf_lastArgOf {ts : List Tree} {p : Tree} (h : p ∈ lastArgOf ts) : sizeOf p < sizeOf ts := by
  fun_cases lastArgOf ts with
  | case1 attrs callee d o args c =>
    have := sizeOf_lastArg h
    simp
    omega
  | case2 => simp [lastArgOf] at h

theorem sizeOf_parts {t p : Tree} (h : p ∈ parts t) : sizeOf p < sizeOf t := by
  obtain ⟨t', hform⟩ := exists_exchange t
  generalize parts t = ps at h hform
  cases hform with
  | repeated =>
    obtain rfl := List.mem_singleton.mp h
    simp
    omega
  | forLoop =>
    simp only [List.mem_cons, List.not_mem_nil, or_false] at h
    rcases h with rfl | rfl | rfl | rfl | rfl <;> simp <;> omega
  | whileLoop =>
    simp only [List.mem_cons, List.not_mem_nil, or_false] at h
    rcases h with rfl | rfl | rfl | rfl <;> simp <;> omega
  | matched =>
    simp only [List.mem_cons, List.not_mem_nil, or_false] at h
    rcases h with rfl | rfl | rfl | rfl <;> simp <;> omega
  | closed | hidden | leaf | tokens => cases h
  | body | awaitedBody =>
    have := sizeOf_lastArgOf h
    simp
    omega
  | awaited | children | group | arguments =>
    have := List.sizeOf_lt_of_mem h
    simp
    omega

/-- What follows for a tree from its visited parts holds of every tree. -/
theorem parts_induction {motive : Tree → Prop} (step : ∀ t, (∀ p ∈ parts t, motive p) → motive t) (t : Tree) :
    motive t :=
  step t fun p hp =>
    have := sizeOf_parts hp
    parts_induction step p
termination_by sizeOf t

end CallProbe.Call
