import CallProbe.Proofs.Behaviour.Wrapped
import CallProbe.Proofs.Shape.Survey
import Mathlib.Algebra.BigOperators.Group.List.Basic

/-! # Calls under the profiler's clock

Under a profile, calls are wrapped with `profile::time`. `timers` counts such calls anywhere in a tree, those that an
earlier probe has put there with the others. Wrapping adds one for each call that it accepts (`timers_wrapTree`), and
parentheses add none (`timers_tree`). -/

namespace CallProbe.Probe

open Source Call

/-! ### Timed calls -/

/-- The wrapper of a profile. -/
abbrev clock : Tree := Make.path true ["shallow_runtime", "profile", "time"]

/-- The function of the runtime that a callee without attributes names. -/
def calleeName? : Tree → Option (List String)
  | .node .pathExpr [.node .attrs [], path] =>
    match Target.pathNames path with
    | "shallow_runtime" :: rest => if startsAtRoot path then some rest else none
    | _ => none
  | _ => none

/-- Whether a tree is a call of `profile::time`. -/
def isClock : Tree → Bool
  | .node .callExpr [_, callee, _] => calleeName? callee == some ["profile", "time"]
  | _ => false

/-- Whether the first element of a list is a call of `profile::time`. -/
def startsClock : Tree → Bool
  | .node .list (guard :: _) => isClock guard
  | _ => false

/-- Whether the first argument is a call of `profile::time`. -/
def takesClock : Tree → Bool
  | .group _ _ [args] _ => startsClock args
  | _ => false

/-- Whether a tree is `::shallow_runtime::finish(::shallow_runtime::profile::time(_), _)`. -/
def isTimer : Tree → Bool
  | .node .callExpr [_, callee, args] => calleeName? callee == some ["finish"] && takesClock args
  | _ => false

mutual

/-- The number of timed calls in a tree, at any depth. -/
def timers : Tree → Nat
  | .node k cs => (if isTimer (.node k cs) then 1 else 0) + allTimers cs
  | .group _ _ content _ => allTimers content
  | .arguments _ read => allTimers read
  | _ => 0

def allTimers : List Tree → Nat
  | [] => 0
  | t :: ts => timers t + allTimers ts

end

theorem allTimers_eq (ts : List Tree) : allTimers ts = (ts.map timers).sum := by
  induction ts with
  | nil => rfl
  | cons t ts ih => rw [allTimers, ih, List.map_cons, List.sum_cons]

theorem timers_node (k : Kind) (cs : List Tree) :
    timers (.node k cs) = (if isTimer (.node k cs) then 1 else 0) + (cs.map timers).sum := by
  rw [timers, allTimers_eq]

@[simp]
theorem timers_group (d : Delimiter) (o c : Pos) (content : List Tree) :
    timers (.group d o content c) = (content.map timers).sum := by
  rw [timers, allTimers_eq]

@[simp]
theorem timers_arguments (w : List TokenTree) (read : List Tree) :
    timers (.arguments w read) = (read.map timers).sum := by
  rw [timers, allTimers_eq]

@[simp]
theorem timers_leaf (l : Leaf) : timers (.leaf l) = 0 := rfl

@[simp]
theorem timers_tokens (ts : List TokenTree) : timers (.tokens ts) = 0 := rfl

/-- Only calls are timed. -/
theorem timers_other {k : Kind} (cs : List Tree) (hk : k ≠ .callExpr) : timers (.node k cs) = (cs.map timers).sum := by
  simp [timers_node, isTimer, hk]

@[simp]
theorem timers_noAttrs : timers .noAttrs = 0 := rfl

@[simp]
theorem timers_absent : timers .absent = 0 := rfl

/-! ### Shapes -/

section
variable {f : Tree → Tree} (hf : Regular f)
include hf

theorem calleeName?_regular (t : Tree) : calleeName? (f t) = calleeName? t := by
  refine hf.read_kind .pathExpr none rfl (fun t ht => ?_) (fun cs => ?_) t
  · unfold calleeName?
    split
    · exact absurd rfl ht
    · rfl
  · match cs with
    | [attrs, path] =>
      have hnames := namesOf_regular hf path
      have hpath : Target.pathNames (f path) = Target.pathNames path := congrArg Prod.fst hnames
      have hroot : startsAtRoot (f path) = startsAtRoot path := congrArg Prod.snd hnames
      by_cases ha : attrs = .node .attrs []
      · subst ha
        have hattrs : f (.node .attrs []) = .node .attrs [] := (hf.plain [] rfl).elim id id
        simp [calleeName?, hattrs, hpath, hroot]
      · have hattrs : f attrs ≠ .node .attrs [] := by
          intro heq
          obtain ⟨as, rfl, hnil⟩ := hf.node_inv rfl heq
          simp_all
        simp [calleeName?, ha, hattrs]
    | [] | [_] => simp [calleeName?]
    | _ :: _ :: _ :: _ => simp [calleeName?]

theorem takesClock_regular (hclock : ∀ t, isClock (f t) = isClock t) (t : Tree) : takesClock (f t) = takesClock t := by
  have hlist : ∀ args, startsClock (f args) = startsClock args := by
    refine hf.read_list false (fun t ht => ?_) fun kept cs htrims => ?_
    · unfold startsClock
      split
      · exact absurd rfl ht
      · rfl
    · rcases htrims with rfl | ⟨hodd, l, rfl⟩
      · cases kept with
        | nil => rfl
        | cons guard rest => exact hclock guard
      · cases kept with
        | nil => cases hodd
        | cons guard rest => exact hclock guard
  have hshape := hf.reshaped t
  generalize f t = t' at hshape ⊢
  cases hshape with
  | group d o c o' c' content =>
    match content with
    | [args] => exact hlist args
    | [] => rfl
    | _ :: _ :: _ => simp [takesClock]
  | _ => rfl

/-- A node whose children are replaced as a map does that keeps shapes is timed as before. -/
theorem isTimer_map (hclock : ∀ t, isClock (f t) = isClock t) (k : Kind) (cs : List Tree) :
    isTimer (.node k (cs.map f)) = isTimer (.node k cs) := by
  by_cases hk : k = .callExpr
  · subst hk
    match cs with
    | [attrs, callee, args] =>
      simp [isTimer, calleeName?_regular hf, takesClock_regular hf hclock]
    | [] | [_] | [_, _] => rfl
    | _ :: _ :: _ :: _ :: _ => rfl
  · simp [isTimer, hk]

end

/-! ### Wrapping -/

namespace CallOptions

variable {options : CallOptions} {function : String}

theorem runtimeCall?_of_calleeName? {attrs callee args : Tree} {name : List String} (h : calleeName? callee = some name) :
    runtimeCall? (.node .callExpr [attrs, callee, args]) = some name := by
  unfold calleeName? at h
  split at h
  · exact h
  · cases h

theorem runtimeCall?_of_isClock {t : Tree} (h : isClock t = true) : runtimeCall? t = some ["profile", "time"] := by
  unfold isClock at h
  split at h
  · exact runtimeCall?_of_calleeName? (by simpa using h)
  · cases h

/-- Wrapping neither makes nor loses a call of `profile::time`. -/
theorem isClock_wrapTree (t : Tree) : isClock (options.wrapTree function t) = isClock t := by
  by_cases hr : runtimeCall? t = some ["profile", "time"]
  · obtain ⟨attrs, callee, args, rfl⟩ := callExpr_of_runtimeCall? hr
    rw [Behaviour.wrapTree_runtime options function hr, Behaviour.wrapInside_runtime options function hr]
    rfl
  · have hnew : runtimeCall? (options.wrapTree function t) ≠ some ["profile", "time"] := by
      cases hw : options.isWrapped function t with
      | true =>
        obtain ⟨site, -, hs⟩ := options.wrapTree_of_isWrapped function hw
        have hfinish : runtimeCall? (options.wrapTree function t) = some ["finish"] := by
          rw [hs]
          rfl
        simp [hfinish]
      | false => rwa [wrapTree_of_not_isWrapped _ _ hw, (Behaviour.wrapInside_call_shape options function t).1]
    rw [Bool.eq_false_iff.mpr (hr ∘ runtimeCall?_of_isClock), Bool.eq_false_iff.mpr (hnew ∘ runtimeCall?_of_isClock)]

/-- The number of timed calls in the places of trees, if it grows by the given number in each. -/
theorem sum_timers_map {ts : List Tree} {more : Tree → Nat}
    (h : ∀ t ∈ ts, timers (options.wrapTree function t) = timers t + more t) :
    ((ts.map (options.wrapTree function)).map timers).sum = (ts.map timers).sum + (ts.map more).sum := by
  rw [List.map_map, ← List.sum_map_add]
  exact congrArg List.sum (List.map_congr_left h)

theorem timers_map (k : Kind) {cs : List Tree} {more : Tree → Nat}
    (h : ∀ t ∈ cs, timers (options.wrapTree function t) = timers t + more t) :
    timers (.node k (cs.map (options.wrapTree function))) = timers (.node k cs) + (cs.map more).sum := by
  rw [timers_node, timers_node, isTimer_map (options.regular_wrapTree function) isClock_wrapTree, sum_timers_map h]
  omega

theorem timers_withLastArg {args : List Tree} {more : Tree → Nat}
    (h : ∀ p ∈ lastArg args, timers (options.wrapTree function p) = timers p + more p) :
    ((withLastArg ((lastArg args).map (options.wrapTree function)) args).map timers).sum =
      (args.map timers).sum + ((lastArg args).map more).sum := by
  fun_induction lastArg args with
  | case1 => rfl
  | case2 t => simp [withLastArg, h]
  | case3 t sep =>
    simp [withLastArg, h]
    omega
  | case4 t sep rest hrest ih =>
    rw [withLastArg]
    · simp [ih h]
      omega
    · exact hrest

/-- In a call that a probe has put there, the last argument alone is wrapped. -/
theorem timers_generated {cs : List Tree} {more : Tree → Nat}
    (h : ∀ p ∈ lastArgOf cs, timers (options.wrapTree function p) = timers p + more p) :
    timers (.node .callExpr (withLastArgOf ((lastArgOf cs).map (options.wrapTree function)) cs)) =
      timers (.node .callExpr cs) + ((lastArgOf cs).map more).sum := by
  fun_cases lastArgOf cs with
  | case1 attrs callee d o args c =>
    have hfirst : startsClock (.node .list (withLastArg ((lastArg args).map (options.wrapTree function)) args)) =
        startsClock (.node .list args) := by
      rcases args with - | ⟨t, - | ⟨sep, - | ⟨u, rest⟩⟩⟩
      · rfl
      · exact isClock_wrapTree t
      · exact isClock_wrapTree t
      · rfl
    have hsum := timers_withLastArg h
    have htimer : isTimer (.node .callExpr [attrs, callee, .group d o [.node .list
        (withLastArg ((lastArg args).map (options.wrapTree function)) args)] c]) =
        isTimer (.node .callExpr [attrs, callee, .group d o [.node .list args] c]) := by
      simp [isTimer, takesClock, hfirst]
    simp only [withLastArgOf]
    rw [timers_node, timers_node, htimer]
    simp [timers_other (k := .list) _ (by decide), hsum]
    omega
  | case2 hargs => simp [withLastArgOf]

theorem timers_wrapInside {t : Tree} {more : Tree → Nat}
    (ih : ∀ p ∈ parts t, timers (options.wrapTree function p) = timers p + more p) :
    timers (options.wrapInside function t) = timers t + ((parts t).map more).sum := by
  have hform := options.exchange_wrapInside function t
  generalize hnew : (parts t).map (options.wrapTree function) = new at hform
  generalize options.wrapInside function t = t', parts t = ps at hform hnew ih ⊢
  cases hform with
  | repeated | forLoop | whileLoop | matched =>
    cases hnew
    simp at ih
    simp (disch := decide) [timers_other, ih]
    omega
  | closed | hidden | leaf | tokens => rfl
  | body =>
    cases hnew
    exact timers_generated ih
  | awaitedBody =>
    cases hnew
    simp (disch := decide) only [timers_other, List.map_cons, List.map_nil, List.sum_cons, List.sum_nil,
      timers_generated ih]
    omega
  | @awaited attrs dot await l =>
    cases hnew
    simp (disch := decide) only [timers_other, List.map_cons, List.map_nil, List.sum_cons, List.sum_nil, timers_map l ih]
    omega
  | @children k =>
    cases hnew
    exact timers_map k ih
  | group =>
    cases hnew
    rw [timers_group, timers_group]
    exact sum_timers_map ih
  | arguments =>
    cases hnew
    rw [timers_arguments, timers_arguments]
    exact sum_timers_map ih

end CallOptions

/-! ### Code that is put in -/

theorem sum_intersperse {sep : Tree} (hsep : timers sep = 0) (ts : List Tree) :
    ((ts.intersperse sep).map timers).sum = (ts.map timers).sum := by
  fun_induction List.intersperse sep ts with
  | case1 => rfl
  | case2 => rfl
  | case3 t ts hne ih => simp [hsep, ih]

@[simp]
theorem timers_path (fromRoot : Bool) (names : List String) (pos : Pos) : timers (Make.path fromRoot names pos) = 0 := by
  have hlead : timers (if fromRoot then Make.symbol "::" pos else .absent) = 0 := by cases fromRoot <;> rfl
  have hsegments : timers (.list ((names.map fun n => Source.Tree.node .segment [Make.word n pos, .absent]).intersperse
      (Make.symbol "::" pos))) = 0 := by
    rw [Tree.list, timers_other _ (by decide), sum_intersperse rfl, List.map_map]
    refine List.sum_eq_zero fun n hn => ?_
    obtain ⟨name, -, rfl⟩ := List.mem_map.mp hn
    rfl
  rw [Make.path, timers_other _ (by decide)]
  simp [hlead, hsegments]

@[simp]
theorem timers_rootPath (names : List String) (pos : Pos) : timers (Make.rootPath names pos) = 0 := by
  simp (disch := decide) [Make.rootPath, timers_other]

@[simp]
theorem timers_rootType (names : List String) : timers (Make.rootType names) = 0 := by
  simp (disch := decide) [Make.rootType, timers_other]

@[simp]
theorem timers_nameExpr (n : String) : timers (Make.nameExpr n) = 0 := by
  simp (disch := decide) [Make.nameExpr, timers_other]

@[simp]
theorem timers_word (w : String) (pos : Pos) : timers (Make.word w pos) = 0 := rfl

@[simp]
theorem timers_symbol (w : String) (pos : Pos) : timers (Make.symbol w pos) = 0 := rfl

@[simp]
theorem timers_literal (text : String) : timers (Make.literal text) = 0 := rfl

@[simp]
theorem timers_string (text : String) : timers (Make.string text) = 0 := rfl

@[simp]
theorem timers_reference (n : String) : timers (Make.reference n) = 0 := by
  simp (disch := decide) [Make.reference, timers_other]

@[simp]
theorem timers_rootMacro (names : List String) : timers (Make.rootMacro names) = 0 := by
  simp (disch := decide) [Make.rootMacro, Make.parens, timers_other]

@[simp]
theorem timers_namePat (n : String) : timers (Make.namePat n) = 0 := rfl

@[simp]
theorem timers_itemStmt (item : Tree) : timers (Make.itemStmt item) = timers item := by
  simp (disch := decide) [Make.itemStmt, timers_other]

@[simp]
theorem timers_lastExpr (e : Tree) : timers (Make.lastExpr e) = timers e := by
  simp (disch := decide) [Make.lastExpr, timers_other]

@[simp]
theorem timers_block (stmts : List Tree) : timers (Make.block stmts) = (stmts.map timers).sum := by
  simp (disch := decide) [Make.block, timers_other]

@[simp]
theorem timers_blockExpr (stmts : List Tree) : timers (Make.blockExpr stmts) = (stmts.map timers).sum := by
  simp (disch := decide) [Make.blockExpr, timers_other]

theorem timers_staticItem (n : String) (type value : Tree) :
    timers (Make.staticItem n type value) = timers type + timers value := by
  simp (disch := decide) [Make.staticItem, timers_other]

theorem timers_letStmt (pat value : Tree) : timers (Make.letStmt pat value) = timers pat + timers value := by
  simp (disch := decide) [Make.letStmt, timers_other]

theorem timers_terminated (ts : List Tree) : ((Make.terminated ts).map timers).sum = (ts.map timers).sum := by
  induction ts with
  | nil => rfl
  | cons t ts ih => simpa [Make.terminated] using ih

theorem pathNames_path (fromRoot : Bool) (names : List String) (pos : Pos) :
    Target.pathNames (Make.path fromRoot names pos) = names := by
  have hevery : ∀ ts : List Source.Tree, Tree.elements.everySecond (ts.intersperse (Make.symbol "::" pos)) = ts := by
    intro ts
    fun_induction List.intersperse (Make.symbol "::" pos) ts with
    | case1 => rfl
    | case2 t => rfl
    | case3 t rest hrest ih => rw [Tree.elements.everySecond, ih]
  simp [Make.path, Target.pathNames, Target.segmentNames, Tree.list, Tree.elements, hevery, Function.comp_def, Make.word,
    Tree.text, Leaf.text]

theorem calleeName?_rootPath (crate : String) (names : List String) (pos : Pos) :
    calleeName? (Make.rootPath (crate :: names) pos) = if crate = "shallow_runtime" then some names else none := by
  have hroot : startsAtRoot (Make.path true (crate :: names) pos) = true := rfl
  simp only [Make.rootPath, Tree.noAttrs, calleeName?, pathNames_path, hroot, if_true]
  split <;> simp_all

/-- A call of anything but `finish` is not timed. -/
theorem timers_call {callee : Tree} (h : (calleeName? callee == some ["finish"]) = false) (args : List Tree) (pos : Pos) :
    timers (Make.call callee args pos) = timers callee + (args.map timers).sum := by
  rw [Make.call, timers_node]
  simp [Make.parens, Tree.list, timers_other, isTimer, h]

theorem timers_toStatic (site : Site) : timers site.toStatic = 0 := by
  have hnew : (calleeName? (Make.rootPath ["shallow_runtime", "CallSite", "new"]) == some ["finish"]) = false := by
    simp [calleeName?_rootPath]
  unfold Site.toStatic
  split <;> simp [timers_staticItem, timers_call hnew, timers_terminated]

theorem timers_finish {guard : Tree} (h : isClock guard = true) (call : Tree) (pos : Pos) :
    timers (Make.call (Make.rootPath ["shallow_runtime", "finish"] pos) [guard, Make.symbol "," pos, call] pos) =
      1 + (timers guard + timers call) := by
  have htimer : isTimer (Make.call (Make.rootPath ["shallow_runtime", "finish"] pos)
      [guard, Make.symbol "," pos, call] pos) = true := h
  rw [Make.call] at htimer ⊢
  rw [timers_node, htimer]
  simp [Make.parens, Tree.list, timers_other]

/-- A call of `profile::time` in front of a call makes it timed. -/
theorem timers_wrapped (site : Site) (call : Tree) : timers (wrapped clock site call) = 1 + timers call := by
  have hargs : guardArgs clock site.toStatic = .ok [Make.call (.node .pathExpr [.noAttrs, clock]) [site.toStatic]] := rfl
  have hother : (calleeName? (.node .pathExpr [.noAttrs, clock]) == some ["finish"]) = false := by
    rw [← Make.rootPath, calleeName?_rootPath]; simp
  have hguard : isClock (Make.call (.node .pathExpr [.noAttrs, clock]) [site.toStatic]) = true := rfl
  rw [wrapped, hargs]
  simp only [Except.toOption, Option.getD_some, List.cons_append, List.nil_append]
  rw [timers_finish hguard, timers_call hother]
  simp [timers_other, timers_toStatic]

namespace CallOptions

/-- Wrapping with `profile::time` adds one timed call for each call that it accepts. -/
theorem timers_wrapTree {options : CallOptions} (hclock : options.wrapper = clock) (function : String) (t : Tree) :
    timers (options.wrapTree function t) = timers t + options.acceptedCount function (visits t) := by
  induction t using parts_induction with
  | step t ih =>
    have hinside := timers_wrapInside ih
    rw [← acceptedCount_joined] at hinside
    rw [wrapTree_eq, visits_eq]
    cases hsite : site? function t with
    | none =>
      rw [isAsked_of_no_site hsite]
      exact hinside
    | some site =>
      obtain ⟨ha, hof⟩ := isAsked_of_site hsite
      rw [ha]
      cases hacc : options.accepts site.target with
      | true =>
        have hcall : options.acceptsCall function t = true := by simp [acceptsCall, hof, hacc]
        simp only [hacc, ↓reduceIte, hclock, timers_wrapped, hinside]
        simp [acceptedCount, Calls.list, hcall]
        omega
      | false =>
        have hcall : options.acceptsCall function t = false := by simp [acceptsCall, hof, hacc]
        simp only [hacc, Bool.false_eq_true, ↓reduceIte, hinside]
        simp [acceptedCount, Calls.list, hcall]

end CallOptions

/-! ### Parentheses -/

open Grouping

theorem timers_parenthesized (e : Tree) : timers (parenthesized e) = timers e := by
  simp [parenthesized, timers_other]

theorem calleeName?_tree (c : Caution) (s : Surroundings) (t : Tree) : calleeName? (tree c s t) = calleeName? t := by
  have hregular := calleeName?_regular (regular_tree c)
  cases t using formCases with
  | node k cs hk =>
    rw [tree_node hk, ← tree_node (s := {}) hk]
    exact hregular _
  | block attrs label body =>
    rw [tree_block]
    split <;> rfl
  | _ => rfl

/-- What is called stays as it is: a path without attributes needs no parentheses. -/
theorem calleeName?_apart (c : Caution) (s : Surroundings) (callee : Tree) :
    calleeName? (keepApart (isNamedField callee || leftApart c s .closed callee) s fun s => tree c s callee) =
      calleeName? callee := by
  unfold keepApart
  split
  · rename_i hapart
    symm
    unfold calleeName?
    split
    · rename_i path
      have hfree : leftApart c s .closed (.node .pathExpr [.node .attrs [], path]) = false := by
        simp [leftApart, leftPrecedence, precedenceIn, isBareJump, takesRest, naturalPrecedence]
      simp [isNamedField, hfree] at hapart
    · rfl
  · exact calleeName?_tree c s callee

theorem isClock_tree (c : Caution) (s : Surroundings) (t : Tree) : isClock (tree c s t) = isClock t := by
  cases t using formCases with
  | node k cs hk =>
    rw [tree_node hk]
    by_cases hcall : k = .callExpr
    · subst hcall
      match cs with
      | [_, _, _] => exact absurd rfl hk
      | [] | [_] | [_, _] => rfl
      | _ :: _ :: _ :: _ :: _ => simp [isClock]
    · simp [isClock, hcall]
  | call attrs callee args => simp only [tree_call, isClock, calleeName?_apart]
  | block attrs label body =>
    rw [tree_block]
    split <;> rfl
  | _ => rfl

theorem sum_timers_tree {c : Caution} {ts : List Tree} (h : ∀ t ∈ ts, timers (tree c {} t) = timers t) :
    ((ts.map (tree c {})).map timers).sum = (ts.map timers).sum := by
  rw [List.map_map]
  exact congrArg List.sum (List.map_congr_left h)

/-- Parentheses around its parts do not make a call a timed one. -/
theorem isTimer_call_tree (c : Caution) (s : Surroundings) (attrs callee args : Tree) :
    isTimer (tree c s (.node .callExpr [attrs, callee, args])) = isTimer (.node .callExpr [attrs, callee, args]) := by
  simp only [tree_call, isTimer, calleeName?_apart, takesClock_regular (regular_tree c) (isClock_tree c {})]

/-- Parentheses leave the number of timed calls. -/
theorem timers_tree (c : Caution) (s : Surroundings) (t : Tree) : timers (tree c s t) = timers t := by
  induction t using Tree.inside_induction generalizing s with
  | step t ih =>
    cases t with
    | leaf | tokens | arguments => rfl
    | group d o content cl =>
      rw [tree_group, timers_group, timers_group]
      exact sum_timers_tree fun u hu => ih u hu {}
    | node k cs =>
      by_cases hform : partCount? k = some cs.length
      · obtain ⟨cs', hput, htree⟩ := tree_form (c := c) (s := s) hform
        have hsum : (cs'.map timers).sum = (cs.map timers).sum :=
          congrArg List.sum (map_of_put timers_parenthesized hput ih)
        by_cases hcall : k = .callExpr
        · subst hcall
          obtain ⟨attrs, callee, args, rfl⟩ : ∃ attrs callee args, cs = [attrs, callee, args] :=
            List.length_eq_three.mp (Option.some.inj hform).symm
          have htimer := isTimer_call_tree c s attrs callee args
          rcases htree with htree | htree
          · rw [htree] at htimer ⊢
            rw [timers_node, timers_node, htimer, hsum]
          · rw [tree_call] at htree
            cases htree
        · rcases htree with htree | htree
          · rw [htree, timers_other _ hcall, timers_other _ hcall, hsum]
          · rw [htree, timers_parenthesized, timers_other _ hcall, timers_other _ hcall, hsum]
      · rw [tree_node hform, timers_node, timers_node, isTimer_map (regular_tree c) (isClock_tree c {}) k cs]
        exact congrArg (_ + ·) (sum_timers_tree fun u hu => ih u hu {})

@[simp]
theorem timers_grouped (t : Tree) : timers t.grouped = timers t := timers_tree .least {} t

end CallProbe.Probe
