import CallProbe.Proofs.Grouping.Operands
import CallProbe.Probe.Function

/-! # Parentheses are put once

A tree that has the parentheses it needs is given no more: `tree_tree`. So the tree that reading a text gives is written
as that text again, and reading a function back changes no token of it. -/

namespace CallProbe.Source.Grouping

variable {c : Caution} {s : Surroundings}

/-! ### Operands that are kept apart -/

theorem leftPrecedence_le (e : Tree) :
    (leftPrecedence c s e).rank ≤ (leftPrecedence c s (tree c s e)).rank := by
  cases hbare : s.optional && isBareBlock e with
  | true =>
    rw [tree_of_bareBlock hbare, leftPrecedence_parenthesized]
    exact rank_le_closed _
  | false =>
    have hfits : Fits .jump e := by
      unfold Fits
      split
      · exact .inl (Nat.zero_le _)
      · trivial
    unfold leftPrecedence
    split
    · rename_i hclosed
      simp only [Bool.and_eq_true, decide_eq_true_eq] at hclosed
      have hread := (steady c e).leaves s .jump hfits hbare hclosed.1.2
      simp [hread, hclosed, canFollow_tree]
    · split
      · exact rank_le_closed _
      · simp

theorem leftApart_tree {p : Precedence} {e : Tree} (h : leftApart c s p e = false) :
    leftApart c s p (tree c s e) = false := by
  have hle := leftPrecedence_le (c := c) (s := s) e
  unfold leftApart at h ⊢
  split at h
  all_goals
    simp only [decide_eq_false_iff_not] at h ⊢
    omega

theorem tree_parenthesized (e : Tree) : tree c s (parenthesized e) = parenthesized (tree c {} e) := rfl

/-- An operand that is put into parentheses if it has to be is left alone then. -/
theorem keepApart_again {e : Tree} (apart : Tree → Bool) (ih : ∀ s, tree c s (tree c s e) = tree c s e)
    (hparens : ∀ x, apart (parenthesized x) = false) (hkept : apart e = false → apart (tree c s e) = false) :
    keepApart (apart (keepApart (apart e) s fun s => tree c s e)) s
      (fun s' => tree c s' (keepApart (apart e) s fun s => tree c s e)) = keepApart (apart e) s fun s => tree c s e := by
  cases hapart : apart e with
  | true => simp only [keepApart, hparens, tree_parenthesized, ih, if_true, if_false, Bool.false_eq_true]
  | false => simp only [keepApart, hkept hapart, ih, if_false, Bool.false_eq_true]

theorem keepApart_left {e : Tree} (p : Precedence) (ih : ∀ s, tree c s (tree c s e) = tree c s e) :
    keepApart (leftApart c s p (keepApart (leftApart c s p e) s fun s => tree c s e)) s
      (fun s' => tree c s' (keepApart (leftApart c s p e) s fun s => tree c s e)) =
        keepApart (leftApart c s p e) s fun s => tree c s e :=
  keepApart_again (leftApart c s p) ih (leftApart_parenthesized p) leftApart_tree

theorem keepApart_right {e : Tree} {p : Precedence} (hp : p ≠ .closed) (ih : ∀ s, tree c s (tree c s e) = tree c s e) :
    keepApart (rightApart c s p (keepApart (rightApart c s p e) s fun s => tree c s e)) s
      (fun s' => tree c s' (keepApart (rightApart c s p e) s fun s => tree c s e)) =
        keepApart (rightApart c s p e) s fun s => tree c s e :=
  keepApart_again (rightApart c s p) ih (fun x => rightApart_parenthesized p x hp) (steady c e).rightApart

theorem keepApart_callee {e : Tree} (ih : ∀ s, tree c s (tree c s e) = tree c s e) :
    keepApart (isNamedField (keepApart (isNamedField e || leftApart c s .closed e) s fun s => tree c s e) ||
        leftApart c s .closed (keepApart (isNamedField e || leftApart c s .closed e) s fun s => tree c s e)) s
      (fun s' => tree c s' (keepApart (isNamedField e || leftApart c s .closed e) s fun s => tree c s e)) =
        keepApart (isNamedField e || leftApart c s .closed e) s fun s => tree c s e := by
  refine keepApart_again (fun e => isNamedField e || leftApart c s .closed e) ih ?_ ?_
  · intro x
    rw [leftApart_parenthesized]
    rfl
  · intro h
    obtain ⟨hfield, hleft⟩ := Bool.or_eq_false_iff.mp h
    rw [isNamedField_tree, hfield, leftApart_tree hleft]
    rfl

theorem keepApart_present {e : Tree} (apart : Tree → Bool) (ih : ∀ s, tree c s (tree c s e) = tree c s e)
    (hparens : ∀ x, apart (parenthesized x) = false) (hkept : apart e = false → apart (tree c s e) = false) :
    keepApart ((keepApart (e.isPresent && apart e) s fun s => tree c s e).isPresent &&
        apart (keepApart (e.isPresent && apart e) s fun s => tree c s e)) s
      (fun s' => tree c s' (keepApart (e.isPresent && apart e) s fun s => tree c s e)) =
        keepApart (e.isPresent && apart e) s fun s => tree c s e := by
  refine keepApart_again (fun e => e.isPresent && apart e) ih ?_ ?_
  · intro x
    rw [hparens, Bool.and_false]
  · intro h
    rw [isPresent_tree]
    cases hpresent : e.isPresent with
    | false => rfl
    | true =>
      rw [hpresent, Bool.true_and] at h
      rw [hkept h]
      rfl

/-! ### Trees -/

/-- Parentheses are put once: a tree that has those that it needs is left alone. -/
theorem tree_tree (c : Caution) (s : Surroundings) (t : Tree) : tree c s (tree c s t) = tree c s t := by
  induction t using Tree.inside_induction generalizing s with
  | step t ih =>
    cases t using formCases with
    | node k cs hk =>
      rw [tree_node hk, tree_node (by simpa using hk), List.map_map]
      exact congrArg (Tree.node k) (List.map_congr_left fun u hu => ih u hu {})
    | group d o content cl =>
      rw [tree_group, tree_group, List.map_map]
      exact congrArg (Tree.group d o · cl) (List.map_congr_left fun u hu => ih u hu {})
    | block attrs label body =>
      simp only [Tree.inside, List.forall_mem_cons] at ih
      have hinside : ∀ s, s.optional = false → tree c s (.node .blockExpr [tree c {} attrs, label, tree c {} body]) =
          .node .blockExpr [tree c {} attrs, label, tree c {} body] := by
        intro s hs
        rw [tree_block, hs, ih.1, ih.2.2.1]
        rfl
      rw [tree_block]
      split
      · rw [tree_parenthesized, hinside {} rfl]
      · rename_i hbare
        rw [tree_block, isEmpty_attrList_tree, if_neg hbare, ih.1, ih.2.2.1]
    | range attrs start limits stop =>
      simp only [Tree.inside, List.forall_mem_cons] at ih
      have hstart := keepApart_present (s := s.leftOf .range true) (leftApart c (s.leftOf .range true) .range)
        ih.2.1 (leftApart_parenthesized .range) leftApart_tree
      have hstop := keepApart_present (s := s.rightOf .range false true)
        (rightApart c (s.rightOf .range false true) .range) ih.2.2.2.1
        (fun x => rightApart_parenthesized .range x (by decide)) (steady c stop).rightApart
      simp only [tree_range, ih, hstart, hstop]
    | leaf | tokens | arguments => rfl
    | _ =>
      -- The form puts its operands apart, and each of these is left alone by its own lemma.
      simp only [Tree.inside, List.forall_mem_cons] at ih
      simp only [tree_assign, tree_binary, tree_cast, tree_call, tree_index, tree_await, tree_field, tree_try,
        tree_methodCall, tree_let, tree_unary, tree_reference, tree_rawAddr, tree_break, tree_return, tree_yield,
        tree_closure, tree_if, tree_while, tree_for, tree_match, ih, keepApart_left, keepApart_right, keepApart_callee,
        operatorPrecedence_ne_closed, ne_eq, reduceCtorEq, not_false_eq_true, implies_true]

end CallProbe.Source.Grouping

namespace CallProbe.Source

@[simp]
theorem Tree.grouped_grouped (t : Tree) : t.grouped.grouped = t.grouped := Grouping.tree_tree .least {} t

@[simp]
theorem Tree.written_grouped (t : Tree) : t.grouped.written = t.written :=
  congrArg Tree.toTokens t.grouped_grouped

end CallProbe.Source

namespace CallProbe.Probe

open Source

/-- Reading a function back changes no token of it. -/
theorem Function.toTokens_grouped (f : Function) : f.grouped.toTokens = f.toTokens := by
  have hattrs : (f.attrs.map Tree.grouped).flatMap Tree.written = f.attrs.flatMap Tree.written := by
    rw [List.flatMap_map]
    simp only [Tree.written_grouped]
  cases hbody : f.body with
  | none => simp [toTokens, grouped, hattrs, hbody]
  | some body => simp [toTokens, grouped, hattrs, hbody]

end CallProbe.Probe
