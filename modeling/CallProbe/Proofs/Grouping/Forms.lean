import CallProbe.Source.Grouping
import Mathlib.Data.List.Forall2

/-! # Forms that parentheses keep

Putting parentheses into a tree changes no more than its operands: `formCases` tells the forms apart that are written in
a way of their own, and whatever decides about parentheses around an expression — its precedence, what may come before it,
whether it is a bare block — is the same before and after parentheses were put into it. Whoever does not care for the forms
takes the parts of a node as `tree_form` leaves them, and goes through a tree by `Tree.inside_induction`. -/

namespace CallProbe.Source

/-! ### Trees inside of a tree -/

/-- The trees that stand directly inside of a tree. -/
def Tree.inside : Tree → List Tree
  | .leaf _ | .tokens _ => []
  | .arguments _ read => read
  | .group _ _ content _ => content
  | .node _ cs => cs

theorem Tree.sizeOf_inside {t u : Tree} (h : u ∈ t.inside) : sizeOf u < sizeOf t := by
  cases t with
  | leaf | tokens => cases h
  | arguments _ ts | group _ _ ts | node _ ts =>
    have := List.sizeOf_lt_of_mem (show u ∈ ts from h)
    simp only [arguments.sizeOf_spec, group.sizeOf_spec, node.sizeOf_spec]
    omega

/-- What follows for a tree from the trees inside of it holds of every tree. -/
theorem Tree.inside_induction {motive : Tree → Prop} (step : ∀ t, (∀ u ∈ t.inside, motive u) → motive t) (t : Tree) :
    motive t :=
  step t fun u hu =>
    have := sizeOf_inside hu
    inside_induction step u
termination_by sizeOf t

end CallProbe.Source

namespace CallProbe.Source.Grouping

variable {c : Caution} {s : Surroundings}

/-! ### Forms -/

/-- The number of parts of the kinds that are not written part by part. -/
def partCount? : Kind → Option Nat
  | .callExpr | .indexExpr | .tryExpr | .unaryExpr | .returnExpr | .yieldExpr | .blockExpr => some 3
  | .assignExpr | .binaryExpr | .castExpr | .awaitExpr | .fieldExpr | .rangeExpr | .referenceExpr | .breakExpr
  | .matchExpr => some 4
  | .letExpr | .rawAddrExpr | .ifExpr | .whileExpr => some 5
  | .methodCallExpr => some 6
  | .forExpr => some 7
  | .closureExpr => some 11
  | _ => none

theorem trees_eq (c : Caution) (ts : List Tree) : trees c ts = ts.map (tree c {}) := by
  induction ts with
  | nil => rfl
  | cons t ts ih => rw [trees, ih, List.map_cons]

-- By cases of the kind: a kind that is not written part by part is one of those only with as many parts as it has.
theorem tree_node {k : Kind} {cs : List Tree} (h : partCount? k ≠ some cs.length) :
    tree c s (.node k cs) = .node k (cs.map (tree c {})) := by
  rw [← trees_eq]
  cases k
  all_goals first
    | rfl
    | (rcases cs with _ | ⟨_, _ | ⟨_, _ | ⟨_, _ | ⟨_, _ | ⟨_, _ | ⟨_, _ | ⟨_, _ | ⟨_, _ | ⟨_, _ | ⟨_, _ | ⟨_, _ | _⟩⟩⟩⟩⟩⟩⟩⟩⟩⟩⟩
       all_goals first
         | rfl
         | exact absurd rfl h)

theorem tree_group (d : Delimiter) (o cl : Pos) (content : List Tree) :
    tree c s (.group d o content cl) = .group d o (content.map (tree c {})) cl := by
  rw [← trees_eq]
  rfl

/-- The forms of trees that are told apart when parentheses are put. -/
theorem formCases {motive : Tree → Prop}
    (assign : ∀ attrs left op right, motive (.node .assignExpr [attrs, left, op, right]))
    (binary : ∀ attrs left op right, motive (.node .binaryExpr [attrs, left, op, right]))
    (cast : ∀ attrs e as_ ty, motive (.node .castExpr [attrs, e, as_, ty]))
    (call : ∀ attrs callee args, motive (.node .callExpr [attrs, callee, args]))
    (index : ∀ attrs base key, motive (.node .indexExpr [attrs, base, key]))
    (await : ∀ attrs base dot w, motive (.node .awaitExpr [attrs, base, dot, w]))
    (field : ∀ attrs base dot m, motive (.node .fieldExpr [attrs, base, dot, m]))
    (question : ∀ attrs base mark, motive (.node .tryExpr [attrs, base, mark]))
    (method : ∀ attrs base dot m turbofish args, motive (.node .methodCallExpr [attrs, base, dot, m, turbofish, args]))
    (range : ∀ attrs start limits stop, motive (.node .rangeExpr [attrs, start, limits, stop]))
    (binding : ∀ attrs l pat eq e, motive (.node .letExpr [attrs, l, pat, eq, e]))
    (unary : ∀ attrs op e, motive (.node .unaryExpr [attrs, op, e]))
    (reference : ∀ attrs amp m e, motive (.node .referenceExpr [attrs, amp, m, e]))
    (rawAddr : ∀ attrs amp raw m e, motive (.node .rawAddrExpr [attrs, amp, raw, m, e]))
    (breaks : ∀ attrs b l value, motive (.node .breakExpr [attrs, b, l, value]))
    (returns : ∀ attrs r value, motive (.node .returnExpr [attrs, r, value]))
    (yields : ∀ attrs y value, motive (.node .yieldExpr [attrs, y, value]))
    (closure : ∀ attrs fors k st a m or1 params or2 output body,
      motive (.node .closureExpr [attrs, fors, k, st, a, m, or1, params, or2, output, body]))
    (block : ∀ attrs label body, motive (.node .blockExpr [attrs, label, body]))
    (ifThen : ∀ attrs i cond body other, motive (.node .ifExpr [attrs, i, cond, body, other]))
    (whileLoop : ∀ attrs label w cond body, motive (.node .whileExpr [attrs, label, w, cond, body]))
    (forLoop : ∀ attrs label f pat i iterated body, motive (.node .forExpr [attrs, label, f, pat, i, iterated, body]))
    (matched : ∀ attrs m value arms, motive (.node .matchExpr [attrs, m, value, arms]))
    (node : ∀ k cs, partCount? k ≠ some cs.length → motive (.node k cs))
    (group : ∀ d o content cl, motive (.group d o content cl))
    (leaf : ∀ l, motive (.leaf l)) (tokens : ∀ ts, motive (.tokens ts))
    (arguments : ∀ written read, motive (.arguments written read)) (t : Tree) : motive t := by
  cases t with
  | node k cs =>
    by_cases h : partCount? k = some cs.length
    · unfold partCount? at h
      split at h
      all_goals
        rcases cs with _ | ⟨_, _ | ⟨_, _ | ⟨_, _ | ⟨_, _ | ⟨_, _ | ⟨_, _ | ⟨_, _ | ⟨_, _ | ⟨_, _ | ⟨_, _ | ⟨_, _ | _⟩⟩⟩⟩⟩⟩⟩⟩⟩⟩⟩
        all_goals first
          | (simp at h; done)
          | apply_assumption
    · exact node k cs h
  | group d o content cl => exact group d o content cl
  | leaf l => exact leaf l
  | tokens ts => exact tokens ts
  | arguments written read => exact arguments written read

/-! ### Parentheses form by form -/

theorem tree_assign (attrs left op right : Tree) : tree c s (.node .assignExpr [attrs, left, op, right]) =
    let ls := s.leftOf .assign false
    .node .assignExpr [tree c {} attrs, keepApart (leftApart c ls .assign left) ls fun s => tree c s left, op,
      tree c (s.rightOf .assign false false) right] := rfl

theorem tree_binary (attrs left op right : Tree) : tree c s (.node .binaryExpr [attrs, left, op, right]) =
    let p := operatorPrecedence op
    let ls := s.leftOf p (mayBeginExpr op)
    let rs := s.rightOf p false false
    .node .binaryExpr [tree c {} attrs, keepApart (leftApart c ls p left) ls fun s => tree c s left, op,
      keepApart (rightApart c rs p right) rs fun s => tree c s right] := rfl

theorem tree_cast (attrs e as_ ty : Tree) : tree c s (.node .castExpr [attrs, e, as_, ty]) =
    let ls := s.leftOf .cast false
    .node .castExpr [tree c {} attrs, keepApart (leftApart c ls .cast e) ls fun s => tree c s e, as_, tree c {} ty] := rfl

theorem tree_call (attrs callee args : Tree) : tree c s (.node .callExpr [attrs, callee, args]) =
    let ls := s.leftOf .closed true
    .node .callExpr [tree c {} attrs,
      keepApart (isNamedField callee || leftApart c ls .closed callee) ls fun s => tree c s callee, tree c {} args] := rfl

theorem tree_index (attrs base key : Tree) : tree c s (.node .indexExpr [attrs, base, key]) =
    let ls := s.leftOf .closed true
    .node .indexExpr [tree c {} attrs, keepApart (leftApart c ls .closed base) ls fun s => tree c s base,
      tree c {} key] := rfl

theorem tree_await (attrs base dot w : Tree) : tree c s (.node .awaitExpr [attrs, base, dot, w]) =
    let ls := s.leftOf .closed false
    .node .awaitExpr [tree c {} attrs, keepApart (leftApart c ls .closed base) ls fun s => tree c s base, dot, w] := rfl

theorem tree_field (attrs base dot m : Tree) : tree c s (.node .fieldExpr [attrs, base, dot, m]) =
    let ls := s.leftOf .closed false
    .node .fieldExpr [tree c {} attrs, keepApart (leftApart c ls .closed base) ls fun s => tree c s base, dot, m] := rfl

theorem tree_try (attrs base mark : Tree) : tree c s (.node .tryExpr [attrs, base, mark]) =
    let ls := s.leftOf .closed false
    .node .tryExpr [tree c {} attrs, keepApart (leftApart c ls .closed base) ls fun s => tree c s base, mark] := rfl

theorem tree_methodCall (attrs base dot m turbofish args : Tree) :
    tree c s (.node .methodCallExpr [attrs, base, dot, m, turbofish, args]) =
      let ls := s.leftOf .closed false
      .node .methodCallExpr [tree c {} attrs, keepApart (leftApart c ls .closed base) ls fun s => tree c s base, dot, m,
        tree c {} turbofish, tree c {} args] := rfl

theorem tree_range (attrs start limits stop : Tree) : tree c s (.node .rangeExpr [attrs, start, limits, stop]) =
    let ls := s.leftOf .range true
    let rs := s.rightOf .range false true
    .node .rangeExpr [tree c {} attrs, keepApart (start.isPresent && leftApart c ls .range start) ls fun s => tree c s start,
      limits, keepApart (stop.isPresent && rightApart c rs .range stop) rs fun s => tree c s stop] := rfl

theorem tree_let (attrs l pat eq e : Tree) : tree c s (.node .letExpr [attrs, l, pat, eq, e]) =
    let rs := s.rightOf .binding false false
    .node .letExpr [tree c {} attrs, l, tree c {} pat, eq,
      keepApart (rightApart c rs .binding e) rs fun s => tree c s e] := rfl

theorem tree_unary (attrs op e : Tree) : tree c s (.node .unaryExpr [attrs, op, e]) =
    let rs := s.rightOf .prefixed false false
    .node .unaryExpr [tree c {} attrs, op, keepApart (rightApart c rs .prefixed e) rs fun s => tree c s e] := rfl

theorem tree_reference (attrs amp m e : Tree) : tree c s (.node .referenceExpr [attrs, amp, m, e]) =
    let rs := s.rightOf .prefixed false false
    .node .referenceExpr [tree c {} attrs, amp, m, keepApart (rightApart c rs .prefixed e) rs fun s => tree c s e] := rfl

theorem tree_rawAddr (attrs amp raw m e : Tree) : tree c s (.node .rawAddrExpr [attrs, amp, raw, m, e]) =
    let rs := s.rightOf .prefixed false false
    .node .rawAddrExpr [tree c {} attrs, amp, raw, m,
      keepApart (rightApart c rs .prefixed e) rs fun s => tree c s e] := rfl

theorem tree_break (attrs b l value : Tree) : tree c s (.node .breakExpr [attrs, b, l, value]) =
    .node .breakExpr [tree c {} attrs, b, l, tree c (s.rightOf .jump true true) value] := rfl

theorem tree_return (attrs r value : Tree) : tree c s (.node .returnExpr [attrs, r, value]) =
    .node .returnExpr [tree c {} attrs, r, tree c (s.rightOf .jump true false) value] := rfl

theorem tree_yield (attrs y value : Tree) : tree c s (.node .yieldExpr [attrs, y, value]) =
    .node .yieldExpr [tree c {} attrs, y, tree c (s.rightOf .jump true false) value] := rfl

theorem tree_closure (attrs fors k st a m or1 params or2 output body : Tree) :
    tree c s (.node .closureExpr [attrs, fors, k, st, a, m, or1, params, or2, output, body]) =
      .node .closureExpr [tree c {} attrs, tree c {} fors, k, st, a, m, or1, tree c {} params, or2, tree c {} output,
        tree c (s.rightOf .jump false false) body] := rfl

theorem tree_block (attrs label body : Tree) : tree c s (.node .blockExpr [attrs, label, body]) =
    if s.optional && attrs.attrList.isEmpty && !label.isPresent
    then parenthesized (.node .blockExpr [tree c {} attrs, label, tree c {} body])
    else .node .blockExpr [tree c {} attrs, label, tree c {} body] := rfl

theorem tree_if (attrs i cond body other : Tree) : tree c s (.node .ifExpr [attrs, i, cond, body, other]) =
    .node .ifExpr [tree c {} attrs, i, tree c .head cond, tree c {} body, tree c {} other] := rfl

theorem tree_while (attrs label w cond body : Tree) : tree c s (.node .whileExpr [attrs, label, w, cond, body]) =
    .node .whileExpr [tree c {} attrs, label, w, tree c .head cond, tree c {} body] := rfl

theorem tree_for (attrs label f pat i iterated body : Tree) :
    tree c s (.node .forExpr [attrs, label, f, pat, i, iterated, body]) =
      .node .forExpr [tree c {} attrs, label, f, tree c {} pat, i, tree c .head iterated, tree c {} body] := rfl

theorem tree_match (attrs m value arms : Tree) : tree c s (.node .matchExpr [attrs, m, value, arms]) =
    .node .matchExpr [tree c {} attrs, m, tree c .head value, tree c {} arms] := rfl

/-! ### Parts of a form -/

/-- What becomes of a part: parentheses are put into it at most, and around it. -/
inductive Put (c : Caution) : Tree → Tree → Prop
  | same (t : Tree) : Put c t t
  | inside (s : Surroundings) (t : Tree) : Put c t (tree c s t)
  | around (t : Tree) : Put c t (parenthesized (tree c {} t))

theorem put_keepApart (apart : Bool) (t : Tree) : Put c t (keepApart apart s fun s => tree c s t) := by
  cases apart with
  | true => exact .around t
  | false => exact .inside s t

/-- What is not written part by part stays a node of its kind, a bare block perhaps in parentheses. -/
theorem tree_form {k : Kind} {cs : List Tree} (h : partCount? k = some cs.length) :
    ∃ cs', List.Forall₂ (Put c) cs cs' ∧
      (tree c s (.node k cs) = .node k cs' ∨ tree c s (.node k cs) = parenthesized (.node k cs')) := by
  generalize ht : Tree.node k cs = t
  cases t using formCases with
  | node l ls hl =>
    cases ht
    exact absurd h hl
  | group | leaf | tokens | arguments => cases ht
  | block attrs label body =>
    cases ht
    refine ⟨_, .cons (.inside {} attrs) (.cons (.same label) (.cons (.inside {} body) .nil)), ?_⟩
    rw [tree_block]
    split
    · exact .inr rfl
    · exact .inl rfl
  | _ =>
    cases ht
    refine ⟨_, ?_, .inl rfl⟩
    simp only [List.forall₂_cons, List.forall₂_nil_left_iff, put_keepApart, Put.same, Put.inside, and_self]

/-- What parentheses around a tree do not change, parentheses put into parts do not change. -/
theorem map_of_put {α : Type} {m : Tree → α} (hparens : ∀ e, m (parenthesized e) = m e) {cs cs' : List Tree}
    (h : List.Forall₂ (Put c) cs cs') (hparts : ∀ u ∈ cs, ∀ s, m (tree c s u) = m u) : cs'.map m = cs.map m := by
  induction h with
  | nil => rfl
  | @cons u u' _ _ hput _ ih =>
    obtain ⟨hu, hrest⟩ := List.forall_mem_cons.mp hparts
    have hsame : m u' = m u := by
      cases hput with
      | same => rfl
      | inside s => exact hu s
      | around => rw [hparens, hu]
    rw [List.map_cons, List.map_cons, hsame, ih hrest]

/-! ### What parentheses inside leave alone -/

@[simp]
theorem isPresent_tree (t : Tree) : (tree c s t).isPresent = t.isPresent := by
  cases t using formCases with
  | node k cs h =>
    rw [tree_node h]
    cases k <;> rfl
  | block attrs label body =>
    rw [tree_block]
    split <;> rfl
  | _ => rfl

/-- Whether a part is one of attributes, at least one of them. -/
def holdsAttrs : Tree → Bool
  | .node .attrs (_ :: _) => true
  | _ => false

@[simp]
theorem holdsAttrs_tree (t : Tree) : holdsAttrs (tree c s t) = holdsAttrs t := by
  cases t using formCases with
  | node k cs h =>
    rw [tree_node h]
    cases k <;> cases cs <;> rfl
  | block attrs label body =>
    rw [tree_block]
    split <;> rfl
  | _ => rfl

theorem isEmpty_attrList (t : Tree) : t.attrList.isEmpty = !holdsAttrs t := by
  unfold Tree.attrList holdsAttrs
  split
  · rename_i as
    cases as <;> rfl
  · rename_i h
    split
    · exact (h _ rfl).elim
    · rfl

@[simp]
theorem isEmpty_attrList_tree (t : Tree) : (tree c s t).attrList.isEmpty = t.attrList.isEmpty := by
  rw [isEmpty_attrList, isEmpty_attrList, holdsAttrs_tree]

@[simp]
theorem isPresent_parenthesized (e : Tree) : (parenthesized e).isPresent = true := rfl

@[simp]
theorem isPresent_keepApart (apart : Bool) (t : Tree) :
    (keepApart (t.isPresent && apart) s fun s => tree c s t).isPresent = t.isPresent := by
  unfold keepApart
  split
  · rename_i h
    simp_all
  · exact isPresent_tree t

theorem isBareJump_node {k : Kind} {cs : List Tree} (h : partCount? k ≠ some cs.length) :
    isBareJump (.node k cs) = false := by
  unfold isBareJump
  split
  all_goals first
    | rfl
    | (rename_i he; cases he; exact absurd rfl h)

@[simp]
theorem isBareJump_tree (t : Tree) : isBareJump (tree c s t) = isBareJump t := by
  cases t using formCases with
  | node k cs h => rw [tree_node h, isBareJump_node h, isBareJump_node (by simpa using h)]
  | block attrs label body =>
    rw [tree_block]
    split <;> rfl
  | breaks attrs b l value => simp [tree_break, isBareJump]
  | returns attrs r value => simp [tree_return, isBareJump]
  | yields attrs y value => simp [tree_yield, isBareJump]
  | _ => rfl

theorem takesRest_node {k : Kind} {cs : List Tree} (h : partCount? k ≠ some cs.length) :
    takesRest (.node k cs) = [Kind.breakExpr, .closureExpr, .letExpr, .returnExpr, .yieldExpr].contains k := by
  unfold takesRest
  split
  all_goals
    rename_i he
    first
    | (cases he; exact absurd rfl h)
    | (cases he; rfl)
    | exact (he _ _ rfl).elim

@[simp]
theorem takesRest_tree (t : Tree) : takesRest (tree c s t) = takesRest t := by
  cases t using formCases with
  | node k cs h => rw [tree_node h, takesRest_node h, takesRest_node (by simpa using h)]
  | block attrs label body =>
    rw [tree_block]
    split <;> rfl
  | range => simp only [tree_range, takesRest, isPresent_keepApart]
  | _ => rfl

/-- How tightly expressions of a kind hold together, whatever their parts are. -/
def kindPrecedence? : Kind → Option Precedence
  | .assignExpr => some .assign
  | .rangeExpr => some .range
  | .letExpr => some .binding
  | .castExpr => some .cast
  | .rawAddrExpr | .referenceExpr | .unaryExpr => some .prefixed
  | _ => none

/-- Only where a jump, a closure or a binary operator stands is the precedence read off the parts. -/
theorem naturalPrecedence_node {k : Kind} {cs : List Tree}
    (h : [Kind.closureExpr, .breakExpr, .returnExpr, .yieldExpr, .binaryExpr].contains k = true →
      partCount? k ≠ some cs.length) :
    naturalPrecedence (.node k cs) =
      (kindPrecedence? k).getD (bif cs.head?.any holdsAttrs then .prefixed else .closed) := by
  unfold naturalPrecedence
  split
  all_goals
    rename_i he
    first
    | (cases he; exact absurd rfl (h rfl))
    | (cases he; rfl)
    | skip
  case h_13 =>
    cases he
    unfold kindPrecedence?
    split <;> first | rfl | (exfalso; solve_by_elim)
  case h_14 =>
    have hhead : cs.head?.any holdsAttrs = false := by
      rcases cs with _ | ⟨a, cs⟩
      · rfl
      · change holdsAttrs a = false
        unfold holdsAttrs
        split
        · exact (he _ _ _ _ rfl).elim
        · rfl
    rw [hhead]
    unfold kindPrecedence?
    split <;> first | rfl | (exfalso; solve_by_elim)

@[simp]
theorem naturalPrecedence_tree (t : Tree) : naturalPrecedence (tree c s t) = naturalPrecedence t := by
  cases t using formCases with
  | node k cs h =>
    rw [tree_node h, naturalPrecedence_node fun _ => h, naturalPrecedence_node fun _ => by simpa using h, List.head?_map]
    cases cs.head? <;> simp
  | block attrs label body =>
    rw [tree_block]
    split
    · rename_i h
      rw [naturalPrecedence_node (by simp), parenthesized, naturalPrecedence_node (by simp)]
      simp_all [isEmpty_attrList, kindPrecedence?, Tree.noAttrs, holdsAttrs]
    · rw [naturalPrecedence_node (by simp), naturalPrecedence_node (by simp)]
      simp only [List.head?_cons, Option.any_some, holdsAttrs_tree]
  | closure => simp [tree_closure, naturalPrecedence]
  | breaks => simp [tree_break, naturalPrecedence]
  | returns => simp [tree_return, naturalPrecedence]
  | yields => simp [tree_yield, naturalPrecedence]
  | binary | group | leaf | tokens | arguments => rfl
  | _ =>
    rw [naturalPrecedence_node (by simp)]
    refine (naturalPrecedence_node (by simp)).trans ?_
    simp only [List.head?_cons, Option.any_some, holdsAttrs_tree]

@[simp]
theorem precedenceIn_tree (s' : Surroundings) (t : Tree) : precedenceIn s' (tree c s t) = precedenceIn s' t := by
  simp [precedenceIn]

theorem canFollow_node {k : Kind} {cs : List Tree} (h : partCount? k ≠ some cs.length) (s' : Surroundings) :
    canFollow s' (.node k cs) =
      if k = .assignExpr then decide (s'.before.rank ≤ Precedence.assign.rank)
      else if k = .castExpr then decide (s'.before.rank < Precedence.cast.rank) else true := by
  unfold canFollow
  split
  all_goals
    rename_i he
    first
    | (cases he; exact absurd rfl h)
    | (cases he; rfl)
    | simp_all

theorem canFollow_tree (s' : Surroundings) (t : Tree) : canFollow s' (tree c s t) = canFollow s' t := by
  cases t using formCases with
  | node k cs h =>
    rw [tree_node h, canFollow_node h, canFollow_node (by simpa using h)]
  | block attrs label body =>
    rw [tree_block]
    split <;> rfl
  | range => simp only [tree_range, canFollow, isPresent_keepApart]
  | _ => rfl

theorem isBareBlock_node {k : Kind} {cs : List Tree} (h : partCount? k ≠ some cs.length) :
    isBareBlock (.node k cs) = false := by
  unfold isBareBlock
  split
  all_goals first
    | rfl
    | (rename_i he; cases he; exact absurd rfl h)

theorem isNamedField_node {k : Kind} {cs : List Tree} (h : partCount? k ≠ some cs.length) :
    isNamedField (.node k cs) = false := by
  unfold isNamedField
  split
  all_goals first
    | rfl
    | (rename_i he; cases he; exact absurd rfl h)

theorem isNamedField_tree (t : Tree) : isNamedField (tree c s t) = isNamedField t := by
  cases t using formCases with
  | node k cs h => rw [tree_node h, isNamedField_node h, isNamedField_node (by simpa using h)]
  | block attrs label body =>
    rw [tree_block]
    split <;> rfl
  | field attrs base dot m =>
    cases m with
    | leaf l => cases l <;> rfl
    | _ => rfl
  | _ => rfl

/-! ### Bare blocks -/

theorem isBareBlock_blockExpr (attrs label body : Tree) : isBareBlock (.node .blockExpr [attrs, label, body]) = true ↔
    attrs = .noAttrs ∧ label.isPresent = false := by
  constructor
  · intro h
    unfold isBareBlock at h
    split at h
    · rename_i he
      cases he
      exact ⟨rfl, rfl⟩
    · cases h
  · rintro ⟨rfl, h⟩
    unfold Tree.isPresent at h
    split at h
    · rfl
    · cases h

theorem isBareBlock_iff {t : Tree} : isBareBlock t = true ↔
    ∃ label body, label.isPresent = false ∧ t = .node .blockExpr [.noAttrs, label, body] := by
  constructor
  · intro h
    unfold isBareBlock at h
    split at h
    · exact ⟨_, _, rfl, rfl⟩
    · cases h
  · rintro ⟨label, body, h, rfl⟩
    exact (isBareBlock_blockExpr ..).mpr ⟨rfl, h⟩

/-- A bare block at the start of what could be left out is put into parentheses. -/
theorem tree_of_bareBlock {t : Tree} (h : (s.optional && isBareBlock t) = true) :
    tree c s t = parenthesized (tree c {} t) := by
  obtain ⟨hs, ht⟩ := Bool.and_eq_true_iff.mp h
  obtain ⟨label, body, hlabel, rfl⟩ := isBareBlock_iff.mp ht
  simp [tree_block, hs, hlabel, Tree.noAttrs, Tree.attrList]

theorem tree_eq_noAttrs {t : Tree} : tree c s t = .noAttrs ↔ t = .noAttrs := by
  constructor
  · intro h
    cases t using formCases with
    | node k cs hk =>
      rw [tree_node hk] at h
      obtain ⟨rfl, hcs⟩ := Tree.node.inj h
      rw [List.map_eq_nil_iff.mp hcs]
      rfl
    | block attrs label body =>
      rw [tree_block] at h
      split at h <;> cases h
    | _ => cases h
  · rintro rfl
    rfl

theorem isBareBlock_tree {t : Tree} (h : (s.optional && isBareBlock t) = false) :
    isBareBlock (tree c s t) = isBareBlock t := by
  cases t using formCases with
  | node k cs hk => rw [tree_node hk, isBareBlock_node hk, isBareBlock_node (by simpa using hk)]
  | block attrs label body =>
    rw [tree_block]
    split
    · rename_i hapart
      have hs : s.optional = true := by simp_all
      rw [hs, Bool.true_and] at h
      rw [h]
      rfl
    · rw [Bool.eq_iff_iff, isBareBlock_blockExpr, isBareBlock_blockExpr, tree_eq_noAttrs]
  | _ => rfl

end CallProbe.Source.Grouping
