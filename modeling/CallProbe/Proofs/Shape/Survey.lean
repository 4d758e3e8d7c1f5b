import CallProbe.Proofs.Wrap.Outcome

/-! # Surveys

A survey puts all nodes of one kind to a test. Parentheses never matter to a survey, and wrapped calls only through the code
that is put in front of them, so a survey of a function after a probe is a survey of the function before and of what a plan
puts in. Two surveys are carried out: which names blocks declare, and whether a `use` brings in a marker. -/

namespace CallProbe.Source

open Grouping

/-- A test of the children of all nodes of one kind, which maps that keep shapes do not change. -/
structure Survey where
  kind : Kind
  test : List Tree → Bool
  /-- Whether the children of a node of the kind are looked into. -/
  enters : List Tree → Bool
  /-- Whether arguments of macros are looked into. -/
  macros : Bool
  /-- Statements are always looked into. -/
  among : kind = .useItem ∨ kind = .stmts ∧ ∀ cs, enters cs = true
  steady {f : Tree → Tree} (hf : Regular f) (cs : List Tree) : test (cs.map f) = test cs ∧ enters (cs.map f) = enters cs

namespace Survey

mutual

/-- Whether all nodes of the kind pass the test. -/
def passes (v : Survey) : Tree → Bool
  | .node k cs => if k = v.kind then v.test cs && (!v.enters cs || v.passesAll cs) else v.passesAll cs
  | .group _ _ content _ => v.passesAll content
  | .arguments _ read => !v.macros || v.passesAll read
  | _ => true

def passesAll (v : Survey) : List Tree → Bool
  | [] => true
  | t :: ts => v.passes t && v.passesAll ts

end

variable (v : Survey)

theorem passesAll_eq (ts : List Tree) : v.passesAll ts = ts.all v.passes := by
  induction ts with
  | nil => rfl
  | cons t ts ih => rw [passesAll, ih, List.all_cons]

theorem passes_node {k : Kind} (cs : List Tree) (hk : k ≠ v.kind) : v.passes (.node k cs) = cs.all v.passes := by
  rw [passes, if_neg hk, passesAll_eq]

theorem passes_kind (cs : List Tree) : v.passes (.node v.kind cs) = (v.test cs && (!v.enters cs || cs.all v.passes)) := by
  rw [passes, if_pos rfl, passesAll_eq]

theorem passes_group (d : Delimiter) (o c : Pos) (content : List Tree) : v.passes (.group d o content c) = content.all v.passes := by
  rw [passes, passesAll_eq]

theorem passes_arguments (written : List TokenTree) (read : List Tree) :
    v.passes (.arguments written read) = (!v.macros || read.all v.passes) := by
  rw [passes, passesAll_eq]

/-- A node that no survey puts to a test. -/
theorem passes_other {k : Kind} (cs : List Tree) (huse : k ≠ .useItem) (hstmts : k ≠ .stmts) :
    v.passes (.node k cs) = cs.all v.passes := by
  refine v.passes_node cs ?_
  rintro rfl
  rcases v.among with h | h
  · exact huse h
  · exact hstmts h.1

/-- Whether statements of a block pass, but for what is inside them. -/
def opens (ss : List Tree) : Bool := !decide (v.kind = .stmts) || v.test ss

theorem opens_of_use (h : v.kind = .useItem) (ss : List Tree) : v.opens ss = true := by
  simp [opens, h]

theorem opens_map {f : Tree → Tree} (hf : Regular f) (ss : List Tree) : v.opens (ss.map f) = v.opens ss := by
  rw [opens, opens, (v.steady hf ss).1]

theorem passes_stmts (ss : List Tree) : v.passes (.node .stmts ss) = (v.opens ss && ss.all v.passes) := by
  by_cases hk : v.kind = .stmts
  · have henters : ∀ cs, v.enters cs = true := by
      rcases v.among with h | h
      · rw [h] at hk
        cases hk
      · exact h.2
    have hkind := v.passes_kind ss
    rw [hk] at hkind
    simp [hkind, henters, opens, hk]
  · rw [passes_node _ _ (Ne.symm hk)]
    simp [opens, hk]

theorem all_of_map {new ts : List Tree} (h : new.map v.passes = ts.map v.passes) : new.all v.passes = ts.all v.passes := by
  simpa [List.all_map] using congrArg (List.all · id) h

theorem all_congr {f : Tree → Tree} {ts : List Tree} (h : ∀ t ∈ ts, v.passes (f t) = v.passes t) :
    (ts.map f).all v.passes = ts.all v.passes := by
  refine v.all_of_map ?_
  rw [List.map_map]
  exact List.map_congr_left h

/-- A node whose children are replaced as a map does that keeps shapes. -/
theorem passes_map {f : Tree → Tree} (hf : Regular f) {cs : List Tree} (h : ∀ t ∈ cs, v.passes (f t) = v.passes t) (k : Kind) :
    v.passes (.node k (cs.map f)) = v.passes (.node k cs) := by
  by_cases hk : k = v.kind
  · subst hk
    obtain ⟨htest, henters⟩ := v.steady hf cs
    rw [passes_kind, passes_kind, htest, henters, v.all_congr h]
  · rw [passes_node _ _ hk, passes_node _ _ hk, v.all_congr h]

/-! ### Parentheses -/

@[simp]
theorem passes_noAttrs : v.passes .noAttrs = true := by
  rw [Tree.noAttrs, passes_other _ _ (by decide) (by decide), List.all_nil]

@[simp]
theorem passes_absent : v.passes .absent = true := by
  rw [Tree.absent, passes_other _ _ (by decide) (by decide), List.all_nil]

@[simp]
theorem passes_leaf (l : Leaf) : v.passes (.leaf l) = true := rfl

@[simp]
theorem passes_tokens (ts : List TokenTree) : v.passes (.tokens ts) = true := rfl

theorem passes_parenthesized (e : Tree) : v.passes (parenthesized e) = v.passes e := by
  rw [parenthesized, passes_other _ _ (by decide) (by decide)]
  simp [passes_group]

/-- No survey sees parentheses. -/
theorem passes_tree (c : Caution) (s : Surroundings) (t : Tree) : v.passes (tree c s t) = v.passes t := by
  induction t using Tree.inside_induction generalizing s with
  | step t ih =>
    cases t with
    | leaf | tokens | arguments => rfl
    | group d o content cl =>
      rw [tree_group, passes_group, passes_group]
      exact v.all_congr fun u hu => ih u hu {}
    | node k cs =>
      by_cases hform : partCount? k = some cs.length
      · -- A form is no node that is put to a test: its parts are all that counts.
        have huse : k ≠ .useItem := by
          rintro rfl
          cases hform
        have hstmts : k ≠ .stmts := by
          rintro rfl
          cases hform
        obtain ⟨cs', hput, htree | htree⟩ := tree_form (c := c) (s := s) hform
        all_goals
          rw [htree]
          try rw [passes_parenthesized]
          rw [passes_other _ _ huse hstmts, passes_other _ _ huse hstmts]
          exact v.all_of_map (map_of_put v.passes_parenthesized hput ih)
      · rw [tree_node hform]
        exact v.passes_map (regular_tree c) (fun u hu => ih u hu {}) k

@[simp]
theorem passes_grouped (t : Tree) : v.passes t.grouped = v.passes t := v.passes_tree .least {} t

/-! ### Calls -/

section
open Call Probe

theorem seesParts : SeesParts v.passes where
  list h := by
    rw [passes_other _ _ (by decide) (by decide), passes_other _ _ (by decide) (by decide)]
    simpa [List.all_map] using congrArg (List.all · id) h
  group h := by
    rw [passes_group, passes_group]
    simpa [List.all_map] using congrArg (List.all · id) h

theorem all_intersperse {p : Tree → Bool} {sep : Tree} (hsep : p sep = true) (ts : List Tree) :
    (ts.intersperse sep).all p = ts.all p := by
  fun_induction List.intersperse sep ts with
  | case1 => rfl
  | case2 => rfl
  | case3 t ts hne ih => simp [hsep, ih]

@[simp]
theorem passes_path (fromRoot : Bool) (names : List String) (pos : Pos) : v.passes (Make.path fromRoot names pos) = true := by
  have hsegments : v.passes (.list ((names.map fun n => Tree.node .segment [Make.word n pos, .absent]).intersperse
      (Make.symbol "::" pos))) = true := by
    rw [Tree.list, passes_other _ _ (by decide) (by decide), all_intersperse rfl, List.all_map, List.all_eq_true]
    intro n _
    rw [Function.comp_apply, passes_other _ _ (by decide) (by decide)]
    simp [Make.word]
  have hlead : v.passes (if fromRoot then Make.symbol "::" pos else .absent) = true := by
    cases fromRoot with
    | false => exact v.passes_absent
    | true => rfl
  rw [Make.path, passes_other _ _ (by decide) (by decide), List.all_cons, List.all_cons, hlead, hsegments]
  rfl

/-- A call has the arguments and what is called. -/
theorem passes_call (callee : Tree) (args : List Tree) (pos : Pos) :
    v.passes (Make.call callee args pos) = (v.passes callee && args.all v.passes) := by
  simp (disch := decide) only [Make.call, Make.parens, Tree.list, passes_other, passes_group, passes_noAttrs, List.all_cons,
    List.all_nil, Bool.true_and, Bool.and_true]

/-- Code that is put in front of a call. -/
def Guards (v : Survey) (options : CallOptions) : Prop :=
  ∀ site args, guardArgs options.wrapper (Site.toStatic site) = .ok args → args.all v.passes = true

variable {v}

theorem passes_wrapped {options : CallOptions} (hguards : v.Guards options) (site : Site) (call : Tree) :
    v.passes (wrapped options.wrapper site call) = v.passes call := by
  have hcallee : v.passes (Make.rootPath ["shallow_runtime", "finish"] site.start) = true := by
    rw [Make.rootPath, passes_other _ _ (by decide) (by decide)]
    simp
  unfold wrapped
  dsimp only
  rw [passes_call, hcallee, Bool.true_and]
  cases hargs : guardArgs options.wrapper site.toStatic with
  | error e => simp [Except.toOption, Make.symbol]
  | ok args =>
    have hargs : args.all v.passes = true := hguards site args hargs
    simp [Except.toOption, Make.symbol, -List.all_eq_true, hargs]

/-- A tree with others in the places of its parts, which pass as those do. -/
theorem passes_wrapInside {options : CallOptions} {function : String} {t : Tree}
    (h : ∀ p ∈ parts t, v.passes (options.wrapTree function p) = v.passes p) :
    v.passes (options.wrapInside function t) = v.passes t := by
  have hform := options.exchange_wrapInside function t
  generalize hnew : (parts t).map (options.wrapTree function) = new at hform
  generalize options.wrapInside function t = t', parts t = ps at hform hnew h ⊢
  have hmap : new.map v.passes = ps.map v.passes := by
    rw [← hnew, List.map_map]
    exact List.map_congr_left h
  cases hform with
  | repeated | forLoop | whileLoop | matched =>
    simp only [List.map_cons, List.cons.injEq] at hmap
    simp (disch := decide) [passes_other, passes_group, hmap]
  | closed | hidden | leaf | tokens => rfl
  | body =>
    rw [passes_other _ _ (by decide) (by decide), passes_other _ _ (by decide) (by decide)]
    exact v.all_of_map (map_withLastArgOf v.seesParts hmap)
  | awaitedBody =>
    have hlast := v.all_of_map (map_withLastArgOf v.seesParts hmap)
    simp (disch := decide) only [passes_other, List.all_cons, List.all_nil, hlast]
  | @awaited attrs dot await l =>
    cases hnew
    have hbase := v.passes_map (options.regular_wrapTree function) h l
    simp (disch := decide) [passes_other, hbase]
  | @children k =>
    cases hnew
    exact v.passes_map (options.regular_wrapTree function) h k
  | group =>
    rw [passes_group, passes_group]
    exact v.all_of_map hmap
  | arguments =>
    rw [passes_arguments, passes_arguments, v.all_of_map hmap]

/-- Wrapped calls show in a survey by the code in front of them only. -/
theorem passes_wrapTree {options : CallOptions} (hguards : v.Guards options) (function : String) (t : Tree) :
    v.passes (options.wrapTree function t) = v.passes t := by
  induction t using parts_induction with
  | step t ih =>
    have hinside := passes_wrapInside ih
    rw [CallOptions.wrapTree_eq]
    split
    · split
      · rw [passes_wrapped hguards, hinside]
      · exact hinside
    · exact hinside

end

end Survey

end CallProbe.Source
