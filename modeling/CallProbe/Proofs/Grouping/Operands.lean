import CallProbe.Proofs.Grouping.Forms

/-! # How operands are read

Whether an expression needs parentheses hangs on what a reader does with the operator after it, which follows its
operands on the right down to the last one. Putting parentheses into the expression changes these operands, but not the
reading, as far as it matters: an expression at which the reader stopped or left the operator alone is read the same
afterwards. `steady` says so of every expression, by induction on it, one lemma for each way to end in an operand.

An operand that is not kept apart *fits*: a binary operator in it binds no more loosely than the one before it. This is
what the induction needs where an operand is put into parentheses, which leave the operator after them to no one. -/

namespace CallProbe.Source.Grouping

variable {c : Caution} {s : Surroundings}

/-! ### Operands -/

theorem operatorPrecedence_le (op : Tree) : (operatorPrecedence op).rank ≤ Precedence.product.rank := by
  have hall : ∀ o ∈ Parse.binaryOperators, o.2.rank ≤ Precedence.product.rank := by decide
  unfold operatorPrecedence
  cases h : Parse.binaryOperators.find? (·.1 == op.text) with
  | none => decide
  | some o => exact hall o (List.mem_of_find?_eq_some h)

theorem operatorPrecedence_ne_binding (op : Tree) : operatorPrecedence op ≠ .binding := by
  have hall : ∀ o ∈ Parse.binaryOperators, o.2 ≠ .binding := by decide
  unfold operatorPrecedence
  cases h : Parse.binaryOperators.find? (·.1 == op.text) with
  | none => decide
  | some o => exact hall o (List.mem_of_find?_eq_some h)

theorem operatorPrecedence_ne_closed (op : Tree) : operatorPrecedence op ≠ .closed := fun h =>
  absurd (operatorPrecedence_le op) (by rw [h]; decide)

theorem rank_le_closed (p : Precedence) : p.rank ≤ Precedence.closed.rank := by
  cases p <;> decide

/-- Whether an expression can stand after an operator without parentheses, as far as a binary operator in it goes. -/
def Fits (p : Precedence) : Tree → Prop
  | .node .binaryExpr [_, _, op, _] => p.rank ≤ (operatorPrecedence op).rank ∨ p = .assign
  | _ => True

/-- What putting parentheses into an expression keeps of how the operator after it is read. -/
structure Steady (c : Caution) (e : Tree) : Prop where
  stops : ∀ s p, reading c e s p = .stops → reading c (tree c s e) s p = .stops
  leaves : ∀ s p, Fits p e → (s.optional && isBareBlock e) = false → reading c e s p = .leaves →
    reading c (tree c s e) s p = .leaves

theorem Steady.absorbs {e : Tree} (h : Steady c e) {p : Precedence} (hfits : Fits p e)
    (hbare : (s.optional && isBareBlock e) = false) (hold : reading c e s p ≠ .absorbs) :
    reading c (tree c s e) s p = reading c e s p := by
  cases hread : reading c e s p with
  | stops => exact h.stops s p hread
  | leaves => exact h.leaves s p hfits hbare hread
  | absorbs => exact absurd hread hold

/-! ### The operand on the right -/

theorem precedenceIn_parenthesized (e : Tree) : precedenceIn s (parenthesized e) = .closed := by
  have hjump : isBareJump (parenthesized e) = false := rfl
  have hrest : takesRest (parenthesized e) = false := rfl
  simp [precedenceIn, hjump, hrest]
  rfl

theorem rightPrecedence_parenthesized (read : Surroundings → Precedence → Reading) (e : Tree) :
    rightPrecedence read s (parenthesized e) = .closed := by
  unfold rightPrecedence
  simp only [precedenceIn_parenthesized, ite_self]

theorem leftPrecedence_parenthesized (e : Tree) : leftPrecedence c s (parenthesized e) = .closed := by
  unfold leftPrecedence
  simp only [precedenceIn_parenthesized, ite_self]

theorem leftApart_parenthesized (p : Precedence) (e : Tree) : leftApart c s p (parenthesized e) = false := by
  unfold leftApart
  rw [leftPrecedence_parenthesized]
  cases p <;> rfl

theorem rightApart_parenthesized (p : Precedence) (e : Tree) (hp : p ≠ .closed) :
    rightApart c s p (parenthesized e) = false := by
  unfold rightApart
  rw [rightPrecedence_parenthesized]
  cases p <;> first | rfl | contradiction

theorem fits_of_canFollow {e : Tree} (h : canFollow s e = true) : Fits s.before e := by
  unfold Fits
  split
  · rename_i attrs left op right
    simp only [canFollow] at h
    split at h
    · rename_i hop
      exact .inl (of_decide_eq_true h)
    · exact .inl (Nat.le_of_lt (of_decide_eq_true h))
  · trivial

/-- An operand that is not kept apart fits. -/
theorem fits_of_rightApart {e : Tree} (h : rightApart c s s.before e = false) : Fits s.before e := by
  cases hfollow : canFollow s e with
  | true => exact fits_of_canFollow hfollow
  | false =>
    have hright : rightPrecedence (reading c e) s e = precedenceIn s e := by simp [rightPrecedence, hfollow]
    unfold Fits
    split
    · rename_i attrs left op right
      have hop : precedenceIn s (.node .binaryExpr [attrs, left, op, right]) = operatorPrecedence op := by
        simp [precedenceIn, isBareJump, takesRest, naturalPrecedence]
      simp only [rightApart, hright, hop] at h
      split at h
      · exact .inr ‹_›
      all_goals exact .inl (by simp at h; omega)
    · trivial

/-- Whether an operand that holds together loosely is read as a whole if the reader does not take what follows. -/
def mayClose (s : Surroundings) (natural : Precedence) : Bool :=
  let loose : Bool := match s.before with
    | .assign | .binding | .prefixed => natural.rank < s.before.rank
    | _ => natural.rank ≤ s.before.rank
  let free := match s.after with
    | .range | .disjunction | .conjunction => true
    | _ => !s.mayBegin
  loose && free

theorem rightPrecedence_eq (read : Surroundings → Precedence → Reading) (e : Tree) : rightPrecedence read s e =
    if mayClose s (precedenceIn s e) && read s s.before != .absorbs && canFollow s e then .closed else precedenceIn s e :=
  rfl

theorem precedenceIn_le_right (read : Surroundings → Precedence → Reading) (e : Tree) :
    (precedenceIn s e).rank ≤ (rightPrecedence read s e).rank := by
  rw [rightPrecedence_eq]
  split
  · exact rank_le_closed _
  · exact Nat.le_refl _

/-- An operand on the right holds together at least as tightly once parentheses were put into it. -/
theorem Steady.rightPrecedence_le {e : Tree} (h : Steady c e) : (rightPrecedence (reading c e) s e).rank ≤
    (rightPrecedence (reading c (tree c s e)) s (tree c s e)).rank := by
  cases hbare : s.optional && isBareBlock e with
  | true =>
    rw [tree_of_bareBlock hbare, rightPrecedence_parenthesized]
    exact rank_le_closed _
  | false =>
    rw [rightPrecedence_eq (reading c e)]
    split
    · rename_i hclosed
      simp only [Bool.and_eq_true, bne_iff_ne, ne_eq] at hclosed
      obtain ⟨⟨hclose, hread⟩, hfollow⟩ := hclosed
      have hsame := h.absorbs (fits_of_canFollow hfollow) hbare hread
      simp [rightPrecedence_eq, hsame, hclose, hread, canFollow_tree, hfollow]
    · rw [← precedenceIn_tree (c := c) (s := s) s e]
      exact precedenceIn_le_right ..

theorem Steady.rightApart {e : Tree} (h : Steady c e) {p : Precedence} (hapart : rightApart c s p e = false) :
    rightApart c s p (tree c s e) = false := by
  have hle := h.rightPrecedence_le (s := s)
  unfold Grouping.rightApart at hapart ⊢
  split at hapart
  · rfl
  all_goals
    simp only [decide_eq_false_iff_not] at hapart ⊢
    omega

/-! ### The reading of operators -/

/-- How an expression without an operand at its end is read. -/
def readingAlone (s : Surroundings) (p : Precedence) : Reading :=
  if (s.after = .assign ∨ s.after = .range) ∧ p = .range then .stops
  else if p = .binding ∧ s.after.rank < Precedence.binding.rank then .stops
  else readingBy s p

/-- Whether an expression ends in no operand: only a bare block that could be left out is read in a way of its own. -/
def EndsClosed (c : Caution) (e : Tree) : Prop :=
  ∀ s p, reading c e s p = if s.optional && isBareBlock e then readingBy s p else readingAlone s p

theorem reading_parenthesized (e : Tree) (p : Precedence) : reading c (parenthesized e) s p = readingAlone s p := by
  change (if s.optional && false then readingBy s p else readingAlone s p) = readingAlone s p
  rw [Bool.and_false]
  rfl

theorem endsClosed_node {k : Kind} {cs : List Tree} (h : partCount? k ≠ some cs.length) : EndsClosed c (.node k cs) := by
  intro s p
  unfold reading
  split
  all_goals first
    | rfl
    | (rename_i he; cases he; exact absurd rfl h)

theorem readingBy_congr {s' : Surroundings} (h : s'.after = s.after) (p : Precedence) : readingBy s' p = readingBy s p := by
  unfold readingBy
  rw [h]

theorem readingBy_ne_stops (p : Precedence) : readingBy s p ≠ .stops := by
  unfold readingBy
  cases p <;> cases s.after <;> decide

theorem readingBy_assign : readingBy s .assign = .absorbs := by
  unfold readingBy
  cases s.after <;> rfl

theorem readingBy_eq_leaves {p : Precedence} : readingBy s p = .leaves ↔
    (if p = .assign ∨ p = .compare then s.after.rank < p.rank else s.after.rank ≤ p.rank) ∧ s.after ≠ .jump := by
  unfold readingBy
  by_cases hp : p = .assign ∨ p = .compare
  · simp [hp, not_or]
  · simp [hp, not_or]

/-- What a loose operator leaves alone, a tighter one leaves alone. -/
theorem readingBy_leaves_of_le {p q : Precedence} (hle : p.rank ≤ q.rank) (h : readingBy s p = .leaves) :
    readingBy s q = .leaves := by
  rw [readingBy_eq_leaves] at h ⊢
  refine ⟨?_, h.2⟩
  have hrest := h.1
  by_cases hq : q = .assign ∨ q = .compare
  · -- only these take operators of their own rank, and there is no other operator of that rank
    have hsame : p.rank = q.rank → p = q := by
      rcases hq with rfl | rfl <;> cases p <;> decide
    rw [if_pos hq]
    split at hrest
    · omega
    · rename_i hp
      have hne : p.rank ≠ q.rank := fun he => hp (hsame he ▸ hq)
      omega
  · rw [if_neg hq]
    split at hrest <;> omega

theorem readingAlone_leaves {s' : Surroundings} (hafter : s'.after = s.after) {p q : Precedence}
    (h : readingBy s q = .leaves) (hp : readingBy s p = .leaves) : readingAfter s p (readingAlone s' q) false = .leaves := by
  unfold readingAlone
  rw [readingBy_congr hafter, h]
  split
  · rename_i hstops
    rw [hafter] at hstops
    rcases hstops.1 with ha | ha <;> simp [readingAfter, ha]
  · split
    · rename_i hstops
      rw [hafter] at hstops
      have hne : s.after ≠ .closed := by
        rintro ha
        rw [ha] at hstops
        exact absurd hstops.2 (by decide)
      simp [readingAfter, hne]
    · exact hp

section Operand

variable {inner : Surroundings} {e : Tree} {p q : Precedence}

theorem readingAfter_operand (h : Steady c e) (hbare : inner.optional = false)
    (hapart : rightApart c inner inner.before e = false) (hfits : Fits q e)
    (hread : readingAfter s p (reading c e inner q) (rightApart c inner inner.before e) ≠ .absorbs) :
    readingAfter s p (reading c (tree c inner e) inner q) (rightApart c inner inner.before (tree c inner e)) =
      readingAfter s p (reading c e inner q) (rightApart c inner inner.before e) := by
  rw [h.rightApart hapart, hapart] at *
  have hlast : reading c e inner q ≠ .absorbs := by
    rintro hlast
    rw [hlast] at hread
    exact hread rfl
  rw [h.absorbs hfits (by simp [hbare]) hlast]

theorem readingAfter_stops (h : Steady c e) (hbare : inner.optional = false)
    (hfits : rightApart c inner inner.before e = false → Fits q e)
    (hread : readingAfter s p (reading c e inner q) (rightApart c inner inner.before e) = .stops) :
    readingAfter s p (reading c (keepApart (rightApart c inner inner.before e) inner fun s => tree c s e) inner q)
      (rightApart c inner inner.before (keepApart (rightApart c inner inner.before e) inner fun s => tree c s e)) = .stops := by
  cases hapart : rightApart c inner inner.before e with
  | true =>
    rw [hapart] at hread
    cases hlast : reading c e inner q with
    | absorbs => simp [hlast, readingAfter] at hread
    | leaves | stops => exact absurd (by simpa [hlast, readingAfter] using hread) (readingBy_ne_stops p)
  | false =>
    rw [keepApart, if_neg (by simp)]
    rw [readingAfter_operand h hbare hapart (hfits hapart) (by simp [hread]), hread]

theorem readingAfter_leaves (h : Steady c e) (hbare : inner.optional = false) (hafter : inner.after = s.after)
    (hclosed : inner.before ≠ .closed)
    (hfits : rightApart c inner inner.before e = false → Fits q e) (hq : readingBy s p = .leaves → readingBy s q = .leaves)
    (hread : readingAfter s p (reading c e inner q) (rightApart c inner inner.before e) = .leaves) :
    readingAfter s p (reading c (keepApart (rightApart c inner inner.before e) inner fun s => tree c s e) inner q)
      (rightApart c inner inner.before (keepApart (rightApart c inner inner.before e) inner fun s => tree c s e)) = .leaves := by
  cases hapart : rightApart c inner inner.before e with
  | true =>
    have hp : readingBy s p = .leaves := by
      rw [hapart] at hread
      cases hlast : reading c e inner q with
      | absorbs => simp [hlast, readingAfter] at hread
      | leaves | stops => simpa [hlast, readingAfter] using hread
    rw [keepApart, if_pos rfl, rightApart_parenthesized _ _ hclosed, reading_parenthesized]
    exact readingAlone_leaves hafter (hq hp) hp
  | false =>
    rw [keepApart, if_neg (by simp)]
    rw [readingAfter_operand h hbare hapart (hfits hapart) (by simp [hread]), hread]

end Operand

theorem steady_of_endsClosed {e : Tree} (h : EndsClosed c e) (h' : ∀ s, EndsClosed c (tree c s e)) : Steady c e := by
  have hsame : ∀ s p, (s.optional && isBareBlock e) = false → reading c (tree c s e) s p = reading c e s p := by
    intro s p hbare
    rw [h, h', isBareBlock_tree hbare]
  constructor
  · intro s p hread
    cases hbare : s.optional && isBareBlock e with
    | true =>
      rw [h, if_pos hbare] at hread
      exact absurd hread (readingBy_ne_stops p)
    | false => rw [hsame s p hbare, hread]
  · intro s p hfits hbare hread
    rw [hsame s p hbare, hread]

/-! ### Putting parentheses keeps how an expression is read -/

theorem reading_assign (attrs left op right : Tree) (p : Precedence) :
    reading c (.node .assignExpr [attrs, left, op, right]) s p =
      match reading c right (s.rightOf .assign false false) .assign with
      | .stops => if s.after = .closed then .stops else .leaves
      | _ => .absorbs := rfl

/-- How a jump without a value is read. -/
def readingJump (s : Surroundings) (p : Precedence) : Reading :=
  if s.after = .assign ∧ Precedence.assign.rank < p.rank then .stops else .absorbs

/-- How an expression is read that takes all that follows it, given how its last operand is. -/
def readingRest (last : Reading) : Reading := if last = .stops then .leaves else .absorbs

theorem reading_break (attrs b l value : Tree) (p : Precedence) :
    reading c (.node .breakExpr [attrs, b, l, value]) s p =
      if value.isPresent then readingRest (reading c value (s.rightOf .jump true true) .jump) else readingJump s p := rfl

theorem reading_return (attrs r value : Tree) (p : Precedence) :
    reading c (.node .returnExpr [attrs, r, value]) s p =
      if value.isPresent then readingRest (reading c value (s.rightOf .jump true false) .jump) else readingJump s p := rfl

theorem reading_yield (attrs y value : Tree) (p : Precedence) :
    reading c (.node .yieldExpr [attrs, y, value]) s p =
      if value.isPresent then readingRest (reading c value (s.rightOf .jump true false) .jump) else readingJump s p := rfl

theorem reading_closure (attrs fors k st a m or1 params or2 output body : Tree) (p : Precedence) :
    reading c (.node .closureExpr [attrs, fors, k, st, a, m, or1, params, or2, output, body]) s p =
      if !c.closuresEnd then .absorbs
      else if !output.isPresent || isBareBlock body then readingRest (reading c body (s.rightOf .jump false false) .jump)
      else readingBy s p := rfl

theorem fits_of_prefixed {e : Tree} (h : Fits .prefixed e) (p : Precedence) : Fits p e := by
  unfold Fits at h ⊢
  split at h
  · rename_i attrs left op right
    have hle := operatorPrecedence_le op
    rcases h with h | h
    · exact absurd (Nat.le_trans h hle) (by decide)
    · cases h
  · trivial

/-- How an operator in front of an operand is read. -/
def readingInFront (c : Caution) (s : Surroundings) (p : Precedence) (e : Tree) : Reading :=
  let inner := s.rightOf .prefixed false false
  readingAfter s p (reading c e inner p) (rightApart c inner inner.before e)

theorem steady_inFront {t e : Tree} (h : Steady c e) (hread : ∀ s p, reading c t s p = readingInFront c s p e)
    (hnew : ∀ s p, reading c (tree c s t) s p =
      let inner := s.rightOf .prefixed false false
      readingInFront c s p (keepApart (rightApart c inner inner.before e) inner fun s => tree c s e)) : Steady c t := by
  constructor
  · intro s p hold
    rw [hread] at hold
    rw [hnew]
    exact readingAfter_stops h (Bool.and_false _) (fun hapart => fits_of_prefixed (fits_of_rightApart hapart) p) hold
  · intro s p _ _ hold
    rw [hread] at hold
    rw [hnew]
    exact readingAfter_leaves h (Bool.and_false _) rfl (by simp [Surroundings.rightOf])
      (fun hapart => fits_of_prefixed (fits_of_rightApart hapart) p) id hold

theorem reading_binary (attrs left op right : Tree) (p : Precedence) :
    reading c (.node .binaryExpr [attrs, left, op, right]) s p =
      if operatorPrecedence op = .compare ∧ s.after = .compare then .absorbs
      else
        let inner := s.rightOf (operatorPrecedence op) false false
        readingAfter s p (reading c right inner inner.before) (rightApart c inner inner.before right) := by
  have hsplit : ∀ inner : Surroundings, (operatorPrecedence op != .assign &&
      decide ((rightPrecedence (fun s p => reading c right s p) inner right).rank ≤ (operatorPrecedence op).rank)) =
      rightApart c inner (operatorPrecedence op) right := by
    intro inner
    have hbinding := operatorPrecedence_ne_binding op
    have hprefixed : operatorPrecedence op ≠ .prefixed := fun he =>
      absurd (operatorPrecedence_le op) (by rw [he]; decide)
    unfold rightApart
    split <;> simp_all
  change (if operatorPrecedence op = .compare ∧ s.after = .compare then _ else _) = _
  rw [hsplit]
  rfl

theorem steady_binary {attrs left op right : Tree} (h : Steady c right) :
    Steady c (.node .binaryExpr [attrs, left, op, right]) := by
  constructor
  · intro s p hold
    rw [reading_binary] at hold
    rw [tree_binary, reading_binary]
    split at hold
    · cases hold
    · rename_i hne
      rw [if_neg hne]
      exact readingAfter_stops h (Bool.and_false _) fits_of_rightApart hold
  · intro s p hfits _ hold
    rw [reading_binary] at hold
    rw [tree_binary, reading_binary]
    split at hold
    · cases hold
    · rename_i hne
      rw [if_neg hne]
      refine readingAfter_leaves h (Bool.and_false _) rfl ?_ fits_of_rightApart ?_ hold
      · exact operatorPrecedence_ne_closed op
      · intro hp
        rcases hfits with hle | rfl
        · exact readingBy_leaves_of_le hle hp
        · rw [readingBy_assign] at hp
          cases hp

theorem steady_assign {attrs left op right : Tree} (h : Steady c right) :
    Steady c (.node .assignExpr [attrs, left, op, right]) := by
  constructor
  · intro s p hold
    rw [tree_assign, reading_assign]
    rw [reading_assign] at hold
    split at hold
    · rename_i hright
      rw [h.stops _ _ hright]
      exact hold
    · cases hold
  · intro s p _ _ hold
    rw [tree_assign, reading_assign]
    rw [reading_assign] at hold
    split at hold
    · rename_i hright
      rw [h.stops _ _ hright]
      exact hold
    · cases hold

theorem steady_takesRest {t e : Tree} (inner : Surroundings → Surroundings) (h : Steady c e)
    (hread : ∀ s p, reading c t s p = readingRest (reading c e (inner s) .jump))
    (hnew : ∀ s p, reading c (tree c s t) s p = readingRest (reading c (tree c (inner s) e) (inner s) .jump)) :
    Steady c t := by
  constructor
  · intro s p hold
    rw [hread, readingRest] at hold
    split at hold <;> cases hold
  · intro s p _ _ hold
    rw [hread, readingRest] at hold
    split at hold
    · rename_i hstops
      rw [hnew, h.stops _ _ hstops]
      rfl
    · cases hold

theorem steady_same {t : Tree} (h : ∀ s p, reading c (tree c s t) s p = reading c t s p) : Steady c t :=
  ⟨fun s p hold => by rw [h, hold], fun s p _ _ hold => by rw [h, hold]⟩

theorem steady_break {attrs b l value : Tree} (h : Steady c value) : Steady c (.node .breakExpr [attrs, b, l, value]) := by
  cases hvalue : value.isPresent with
  | true => exact steady_takesRest (·.rightOf .jump true true) h (by simp [reading_break, hvalue]) (by simp [reading_break, tree_break, hvalue])
  | false => exact steady_same (by simp [reading_break, tree_break, hvalue])

theorem steady_return {attrs r value : Tree} (h : Steady c value) : Steady c (.node .returnExpr [attrs, r, value]) := by
  cases hvalue : value.isPresent with
  | true => exact steady_takesRest (·.rightOf .jump true false) h (by simp [reading_return, hvalue]) (by simp [reading_return, tree_return, hvalue])
  | false => exact steady_same (by simp [reading_return, tree_return, hvalue])

theorem steady_yield {attrs y value : Tree} (h : Steady c value) : Steady c (.node .yieldExpr [attrs, y, value]) := by
  cases hvalue : value.isPresent with
  | true => exact steady_takesRest (·.rightOf .jump true false) h (by simp [reading_yield, hvalue]) (by simp [reading_yield, tree_yield, hvalue])
  | false => exact steady_same (by simp [reading_yield, tree_yield, hvalue])

theorem steady_closure {attrs fors k st a m or1 params or2 output body : Tree} (h : Steady c body) :
    Steady c (.node .closureExpr [attrs, fors, k, st, a, m, or1, params, or2, output, body]) := by
  have hbare : ∀ s : Surroundings, isBareBlock (tree c (s.rightOf .jump false false) body) = isBareBlock body :=
    fun s => isBareBlock_tree (by simp [Surroundings.rightOf])
  cases hclosure : c.closuresEnd with
  | false => exact steady_same (by simp [reading_closure, tree_closure, hclosure])
  | true =>
    cases hopen : !output.isPresent || isBareBlock body with
    | true =>
      exact steady_takesRest (·.rightOf .jump false false) h (by simp [reading_closure, hclosure, hopen]) (by simp [reading_closure, tree_closure, hclosure, hbare, hopen])
    | false => exact steady_same (by simp [reading_closure, tree_closure, hclosure, hbare, hopen])

theorem reading_openRange {attrs start limits stop : Tree} (hstop : stop.isPresent = false) (p : Precedence) :
    reading c (.node .rangeExpr [attrs, start, limits, stop]) s p = if s.mayBegin then .absorbs else .stops := by
  change (if stop.isPresent then _ else _) = _
  rw [hstop]
  rfl

/-- How a range with an end is read, given how its end is. -/
def readingRange (s : Surroundings) (last : Reading) (apart : Bool) : Reading :=
  if last = .absorbs ∨ last = .leaves ∧ s.after ≠ .assign ∧ s.after ≠ .range ∨ apart then .absorbs else .stops

theorem reading_range {attrs start limits stop : Tree} (hstop : stop.isPresent = true) (p : Precedence) :
    reading c (.node .rangeExpr [attrs, start, limits, stop]) s p =
      readingRange s (reading c stop (s.rightOf .range false true) .range)
        (rightApart c (s.rightOf .range false true) .range stop) := by
  have hapart : rightApart c (s.rightOf .range false true) .range stop = decide
      ((rightPrecedence (reading c stop) (s.rightOf .range false true) stop).rank ≤ Precedence.range.rank) := rfl
  change (if stop.isPresent then _ else _) = _
  rw [if_pos hstop, hapart, readingRange]
  cases hlast : reading c stop (s.rightOf .range false true) .range with
  | absorbs | stops => simp [hlast]
  | leaves =>
    by_cases hafter : s.after ≠ .assign ∧ s.after ≠ .range
    · simp [hlast, hafter]
    · simp only [hlast, hafter, and_false, false_or, if_false, decide_eq_true_eq, reduceCtorEq]

theorem steady_range {attrs start limits stop : Tree} (h : Steady c stop) :
    Steady c (.node .rangeExpr [attrs, start, limits, stop]) := by
  cases hstop : stop.isPresent with
  | false =>
    refine steady_same fun s p => ?_
    rw [tree_range, reading_openRange (by rw [isPresent_keepApart, hstop]), reading_openRange hstop]
  | true =>
    constructor
    · intro s p hold
      rw [reading_range hstop] at hold
      have hnew : (keepApart (stop.isPresent && rightApart c (s.rightOf .range false true) .range stop)
          (s.rightOf .range false true) fun s => tree c s stop).isPresent = true := by
        rw [isPresent_keepApart, hstop]
      rw [tree_range, reading_range hnew, hstop, Bool.true_and]
      -- A range that leaves what follows has an end that does so too, or that stops, and that is not put apart.
      obtain ⟨habsorbs, hleaves, hapart⟩ : reading c stop (s.rightOf .range false true) .range ≠ .absorbs ∧
          (reading c stop (s.rightOf .range false true) .range = .leaves → s.after = .assign ∨ s.after = .range) ∧
          rightApart c (s.rightOf .range false true) .range stop = false := by
        unfold readingRange at hold
        split at hold
        · cases hold
        · rename_i hnot
          simp only [not_or, Bool.not_eq_true] at hnot
          refine ⟨hnot.1, fun hleaves => ?_, hnot.2.2⟩
          by_cases hassign : s.after = .assign
          · exact .inl hassign
          · exact .inr (by simpa [hleaves, hassign] using hnot.2.1)
      rw [hapart, keepApart, if_neg (by simp), h.rightApart hapart]
      cases hlast : reading c stop (s.rightOf .range false true) .range with
      | absorbs => exact absurd hlast habsorbs
      | stops => rw [h.stops _ _ hlast]; rfl
      | leaves =>
        cases hbare : (s.rightOf .range false true).optional && isBareBlock stop with
        | true =>
          have halone : readingAlone (s.rightOf .range false true) .range = .stops := if_pos ⟨hleaves hlast, rfl⟩
          rw [tree_of_bareBlock hbare, reading_parenthesized, halone]
          rfl
        | false =>
          have hfits : Fits .range stop := fits_of_rightApart hapart
          rw [h.leaves _ _ hfits hbare hlast, ← hold, hlast, hapart]
    · intro s p _ _ hold
      rw [reading_range hstop] at hold
      simp only [readingRange] at hold
      split at hold <;> cases hold

/-- How a `let` is read, given how its value is. -/
def readingLet (s : Surroundings) (last : Reading) (apart : Bool) : Reading :=
  if last = .absorbs then .absorbs
  else if s.after.rank < Precedence.binding.rank ∨ last = .stops ∧ apart = false then .leaves else .absorbs

theorem reading_let {attrs l pat eq e : Tree} (p : Precedence) : reading c (.node .letExpr [attrs, l, pat, eq, e]) s p =
    readingLet s (reading c e (s.rightOf .binding false false) .binding)
      (rightApart c (s.rightOf .binding false false) .binding e) := by
  have hapart : rightApart c (s.rightOf .binding false false) .binding e = decide
      ((rightPrecedence (reading c e) (s.rightOf .binding false false) e).rank < Precedence.binding.rank) := rfl
  rw [reading, hapart, readingLet]
  cases hlast : reading c e (s.rightOf .binding false false) .binding with
  | absorbs => simp
  | stops | leaves =>
    by_cases hloose : s.after.rank < Precedence.binding.rank
    · simp [hloose]
    · by_cases hclose : (rightPrecedence (reading c e) (s.rightOf .binding false false) e).rank < Precedence.binding.rank
      · simp [hloose, hclose]
      · simp [hloose, hclose]

theorem steady_let {attrs l pat eq e : Tree} (h : Steady c e) : Steady c (.node .letExpr [attrs, l, pat, eq, e]) := by
  constructor
  · intro s p hold
    rw [reading_let] at hold
    simp only [readingLet] at hold
    split at hold
    · cases hold
    · split at hold <;> cases hold
  · intro s p _ _ hold
    rw [reading_let] at hold
    rw [tree_let, reading_let]
    cases hapart : rightApart c (s.rightOf .binding false false) .binding e with
    | true =>
      -- Parentheses stop the value, so what follows is left only if it binds less than the `let` itself.
      have hloose : s.after.rank < Precedence.binding.rank := by
        rw [hapart] at hold
        simp only [readingLet] at hold
        split at hold
        · cases hold
        · split at hold
          · simp_all
          · cases hold
      have halone : readingAlone (s.rightOf .binding false false) .binding = .stops := by
        unfold readingAlone
        rw [if_neg (by simp), if_pos ⟨rfl, hloose⟩]
      rw [keepApart, if_pos rfl, reading_parenthesized, halone, readingLet, if_neg (by simp), if_pos (.inl hloose)]
    | false =>
      have hlast : reading c e (s.rightOf .binding false false) .binding ≠ .absorbs := by
        rintro hlast
        rw [hlast] at hold
        cases hold
      have hfits : Fits .binding e := fits_of_rightApart hapart
      rw [keepApart, if_neg (by simp), h.absorbs hfits (by simp [Surroundings.rightOf]) hlast, h.rightApart hapart]
      rwa [hapart] at hold

/-- Putting parentheses into an expression keeps how it is read. -/
theorem steady (c : Caution) (e : Tree) : Steady c e := by
  induction e using Tree.inside_induction with
  | step e ih =>
    cases e using formCases with
    | assign attrs left op right => exact steady_assign (ih right (by simp [Tree.inside]))
    | binary attrs left op right => exact steady_binary (ih right (by simp [Tree.inside]))
    | unary attrs op e => exact steady_inFront (ih e (by simp [Tree.inside])) (fun _ _ => rfl) fun _ _ => rfl
    | reference attrs amp m e => exact steady_inFront (ih e (by simp [Tree.inside])) (fun _ _ => rfl) fun _ _ => rfl
    | rawAddr attrs amp raw m e => exact steady_inFront (ih e (by simp [Tree.inside])) (fun _ _ => rfl) fun _ _ => rfl
    | range attrs start limits stop => exact steady_range (ih stop (by simp [Tree.inside]))
    | binding attrs l pat eq e => exact steady_let (ih e (by simp [Tree.inside]))
    | breaks attrs b l value => exact steady_break (ih value (by simp [Tree.inside]))
    | returns attrs r value => exact steady_return (ih value (by simp [Tree.inside]))
    | yields attrs y value => exact steady_yield (ih value (by simp [Tree.inside]))
    | closure attrs fors k st a m or1 params or2 output body => exact steady_closure (ih body (by simp [Tree.inside]))
    | node k cs h =>
      refine steady_of_endsClosed (endsClosed_node h) fun s => ?_
      rw [tree_node h]
      exact endsClosed_node (by simpa using h)
    | block attrs label body =>
      refine steady_of_endsClosed (fun _ _ => rfl) fun s => ?_
      rw [tree_block]
      split <;> exact fun _ _ => rfl
    | _ => exact steady_of_endsClosed (fun _ _ => rfl) fun _ _ _ => rfl

end CallProbe.Source.Grouping
