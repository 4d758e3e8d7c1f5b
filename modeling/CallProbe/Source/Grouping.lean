import CallProbe.Source.Parse.Expr

/-! # Parentheses that keep expressions apart

A tree knows what belongs to what, and its text must say the same. Where an expression stands next to an
operator, reading its text again could give another tree; parentheses then keep it apart. Most trees that were
read need none, because they were read from such a text. A cautious writer adds some all the same: in front of
the block of an `if` or a loop, a block at the start of an operand that could be left out could be taken for
that block.

`reading` follows what a reader would do with the operator after an expression, and `tree` puts the
parentheses in. -/

namespace CallProbe.Source

namespace Grouping

/-- What an expression stands between. -/
structure Surroundings where
  /-- How tightly the operator before it binds. -/
  before : Precedence := .jump
  /-- How tightly the operator after it binds. -/
  after : Precedence := .jump
  /-- Whether the operator after it could also begin an expression. -/
  mayBegin : Bool := false
  /-- Whether anything follows that could continue it. -/
  goesOn : Bool := false
  /-- Whether it is the condition in front of a block, or ends one. -/
  condition : Bool := false
  /-- Whether it starts an operand of a condition that could be left out. -/
  optional : Bool := false

namespace Surroundings

/-- Around what stands left of an operator. -/
def leftOf (s : Surroundings) (op : Precedence) (mayBegin : Bool) : Surroundings :=
  { s with after := op, mayBegin, goesOn := true }

/-- Around what stands right of an operator. `fresh` says whether it may hold struct literals even in a
    condition, and `optional` whether the operator may have nothing on its right. -/
def rightOf (s : Surroundings) (op : Precedence) (fresh optional : Bool) : Surroundings :=
  { s with before := op, condition := s.condition && !fresh, optional := s.condition && optional }

end Surroundings

/-- Around the condition in front of a block. -/
def Surroundings.head : Surroundings := { condition := true }

/-- What a reader does at the operator after an expression. -/
inductive Reading where
  /-- Cannot go on there. -/
  | stops
  /-- Leaves the operator to what is around the expression. -/
  | leaves
  /-- Takes the operator into the expression. -/
  | absorbs
deriving DecidableEq

/-- How a writer decides about closures: whether one may end where its body does. -/
structure Caution where
  closuresEnd : Bool

/-- Adds only what the grammar asks for. -/
def Caution.least : Caution := ⟨true⟩

/-- Adds parentheses around every closure that an operator follows. -/
def Caution.most : Caution := ⟨false⟩

/-- The operator that a tree is. -/
def operatorPrecedence (op : Tree) : Precedence :=
  ((Parse.binaryOperators.find? (·.1 == op.text)).map (·.2)).getD .jump

/-- Whether a binary operator could also begin an expression. -/
def mayBeginExpr (op : Tree) : Bool := ["-", "*", "&&", "||", "&", "|", "<<", "<"].contains op.text

/-- How tightly an expression holds together. -/
def naturalPrecedence : Tree → Precedence
  | .node .closureExpr [attrs, _, _, _, _, _, _, _, _, output, _] =>
    if !output.isPresent then .jump else if attrs.attrList.isEmpty then .closed else .prefixed
  | .node .breakExpr [_, _, _, value] | .node .returnExpr [_, _, value] | .node .yieldExpr [_, _, value] =>
    if value.isPresent then .jump else .closed
  | .node .assignExpr _ => .assign
  | .node .rangeExpr _ => .range
  | .node .binaryExpr [_, _, op, _] => operatorPrecedence op
  | .node .letExpr _ => .binding
  | .node .castExpr _ => .cast
  | .node .rawAddrExpr _ | .node .referenceExpr _ | .node .unaryExpr _ => .prefixed
  | .node _ (.node .attrs (_ :: _) :: _) => .prefixed
  | _ => .closed

/-- Whether an expression leaves the function or loop, and has no value. -/
def isBareJump : Tree → Bool
  | .node .breakExpr [_, _, _, value] | .node .returnExpr [_, _, value] | .node .yieldExpr [_, _, value] =>
    !value.isPresent
  | _ => false

/-- Whether an expression takes all that follows it. -/
def takesRest : Tree → Bool
  | .node .rangeExpr [_, start, _, _] => !start.isPresent
  | .node k _ => [Kind.breakExpr, .closureExpr, .letExpr, .returnExpr, .yieldExpr].contains k
  | _ => false

/-- Whether an expression is a block with nothing in front of it. -/
def isBareBlock : Tree → Bool
  | .node .blockExpr [.node .attrs [], .node .absent _, _] => true
  | _ => false

/-- How tightly an expression holds together in its place. -/
def precedenceIn (s : Surroundings) (e : Tree) : Precedence :=
  if s.mayBegin && isBareJump e then .jump
  else if !s.goesOn && takesRest e then .prefixed
  else naturalPrecedence e

/-- Whether an expression can follow the operator before it. -/
def canFollow (s : Surroundings) : Tree → Bool
  | .node .assignExpr _ => s.before.rank ≤ Precedence.assign.rank
  | .node .binaryExpr [_, _, op, _] =>
    let p := operatorPrecedence op
    if p = .assign then s.before.rank ≤ p.rank else s.before.rank < p.rank
  | .node .castExpr _ => s.before.rank < Precedence.cast.rank
  | .node .rangeExpr [_, start, _, _] => !start.isPresent || s.before.rank < Precedence.assign.rank
  | _ => true

/-- What precedence alone says about the operator after an operand of `p`. -/
def readingBy (s : Surroundings) (p : Precedence) : Reading :=
  let takes := if p = .assign ∨ p = .compare then p.rank ≤ s.after.rank else p.rank < s.after.rank
  if takes ∨ s.after = .jump then .absorbs else .leaves

/-- How tightly an operand on the right of an operator holds together, given how it is read. -/
def rightPrecedence (read : Surroundings → Precedence → Reading) (s : Surroundings) (e : Tree) : Precedence :=
  let natural := precedenceIn s e
  let loose := match s.before with
    | .assign | .binding | .prefixed => natural.rank < s.before.rank
    | _ => natural.rank ≤ s.before.rank
  let free := match s.after with
    | .range | .disjunction | .conjunction => true
    | _ => !s.mayBegin
  if loose && free && read s s.before != .absorbs && canFollow s e then .closed else natural

/-- How an expression is read whose last operand is read as `last`. `split` says whether parentheses around that
    operand keep it apart. -/
def readingAfter (s : Surroundings) (p : Precedence) (last : Reading) (split : Bool) : Reading :=
  match last with
  | .absorbs => .absorbs
  | .leaves => readingBy s p
  | .stops => if split then readingBy s p else if s.after = .closed then .stops else .leaves

/-- What a reader does at the operator after an expression that is the last operand of an operator `p`. -/
def reading (c : Caution) : Tree → Surroundings → Precedence → Reading
  | .node .assignExpr [_, _, _, right], s, _ =>
    match reading c right (s.rightOf .assign false false) .assign with
    | .stops => if s.after = .closed then .stops else .leaves
    | _ => .absorbs
  | .node .binaryExpr [_, _, op, right], s, p =>
    let own := operatorPrecedence op
    if own = .compare ∧ s.after = .compare then .absorbs
    else
      let inner := s.rightOf own false false
      let split := own != .assign &&
        (rightPrecedence (fun s p => reading c right s p) inner right).rank ≤ own.rank
      readingAfter s p (reading c right inner own) split
  | .node .rawAddrExpr [_, _, _, _, e], s, p | .node .referenceExpr [_, _, _, e], s, p
  | .node .unaryExpr [_, _, e], s, p =>
    let inner := s.rightOf .prefixed false false
    let split := (rightPrecedence (fun s p => reading c e s p) inner e).rank < Precedence.prefixed.rank
    readingAfter s p (reading c e inner p) split
  | .node .rangeExpr [_, _, _, stop], s, _ =>
    if stop.isPresent then
      let inner := s.rightOf .range false true
      match reading c stop inner .range with
      | .absorbs => .absorbs
      | last =>
        if last = .leaves ∧ s.after ≠ .assign ∧ s.after ≠ .range then .absorbs
        else if (rightPrecedence (fun s p => reading c stop s p) inner stop).rank ≤ Precedence.range.rank then .absorbs
        else .stops
    else if s.mayBegin then .absorbs else .stops
  | .node .breakExpr [_, _, _, value], s, p =>
    if value.isPresent then
      if reading c value (s.rightOf .jump true true) .jump = .stops then .leaves else .absorbs
    else if s.after = .assign ∧ Precedence.assign.rank < p.rank then .stops else .absorbs
  | .node .returnExpr [_, _, value], s, p | .node .yieldExpr [_, _, value], s, p =>
    if value.isPresent then
      if reading c value (s.rightOf .jump true false) .jump = .stops then .leaves else .absorbs
    else if s.after = .assign ∧ Precedence.assign.rank < p.rank then .stops else .absorbs
  | .node .closureExpr [_, _, _, _, _, _, _, _, _, output, body], s, p =>
    if !c.closuresEnd then .absorbs
    else if !output.isPresent || isBareBlock body then
      if reading c body (s.rightOf .jump false false) .jump = .stops then .leaves else .absorbs
    else readingBy s p
  | .node .letExpr [_, _, _, _, e], s, _ =>
    let inner := s.rightOf .binding false false
    match reading c e inner .binding with
    | .absorbs => .absorbs
    | last =>
      if s.after.rank < Precedence.binding.rank then .leaves
      else if (rightPrecedence (fun s p => reading c e s p) inner e).rank < Precedence.binding.rank then .absorbs
      else if last = .stops then .leaves else .absorbs
  | e, s, p =>
    if s.optional && isBareBlock e then readingBy s p
    else if (s.after = .assign ∨ s.after = .range) ∧ p = .range then .stops
    else if p = .binding ∧ s.after.rank < Precedence.binding.rank then .stops
    else readingBy s p

/-- How tightly an operand on the left of an operator holds together. -/
def leftPrecedence (c : Caution) (s : Surroundings) (e : Tree) : Precedence :=
  if (!s.mayBegin || s.after = .range) && reading c e s .jump = .leaves && canFollow s e then .closed
  else precedenceIn s e

/-- An expression in parentheses. -/
def parenthesized (e : Tree) : Tree := .node .parenExpr [.noAttrs, .group .paren Pos.none [e] Pos.none]

/-- Whether the member of a field is a name. -/
def isNamedField : Tree → Bool
  | .node .fieldExpr [_, _, _, .leaf (.word _ _)] => true
  | _ => false

/-- An expression, in parentheses if it has to be kept apart. Inside of them nothing is around it. -/
def keepApart (apart : Bool) (s : Surroundings) (write : Surroundings → Tree) : Tree :=
  if apart then parenthesized (write {}) else write s

/-- Whether the left operand of an operator has to be kept apart. -/
def leftApart (c : Caution) (s : Surroundings) (p : Precedence) (left : Tree) : Bool :=
  let lp := (leftPrecedence c s left).rank
  match p with
  | .assign => lp ≤ Precedence.range.rank
  | .compare | .range => lp ≤ p.rank
  | _ => lp < p.rank

/-- Whether the right operand of an operator has to be kept apart. -/
def rightApart (c : Caution) (s : Surroundings) (p : Precedence) (right : Tree) : Bool :=
  let rp := (rightPrecedence (reading c right) s right).rank
  match p with
  | .assign => false
  | .prefixed | .binding => rp < p.rank
  | _ => rp ≤ p.rank

mutual

/-- A tree with parentheses where its expressions need them. -/
def tree (c : Caution) (s : Surroundings) : Tree → Tree
  | .node .assignExpr [attrs, left, op, right] =>
    let ls := s.leftOf .assign false
    .node .assignExpr [tree c {} attrs, keepApart (leftApart c ls .assign left) ls (fun s => tree c s left), op,
      tree c (s.rightOf .assign false false) right]
  | .node .binaryExpr [attrs, left, op, right] =>
    let p := operatorPrecedence op
    let ls := s.leftOf p (mayBeginExpr op)
    let rs := s.rightOf p false false
    .node .binaryExpr [tree c {} attrs, keepApart (leftApart c ls p left) ls (fun s => tree c s left), op,
      keepApart (rightApart c rs p right) rs (fun s => tree c s right)]
  | .node .castExpr [attrs, e, as_, ty] =>
    let ls := s.leftOf .cast false
    .node .castExpr [tree c {} attrs, keepApart (leftApart c ls .cast e) ls (fun s => tree c s e), as_, tree c {} ty]
  | .node .callExpr [attrs, callee, args] =>
    let ls := s.leftOf .closed true
    .node .callExpr [tree c {} attrs,
      keepApart (isNamedField callee || leftApart c ls .closed callee) ls (fun s => tree c s callee), tree c {} args]
  | .node .indexExpr [attrs, base, key] =>
    let ls := s.leftOf .closed true
    .node .indexExpr [tree c {} attrs, keepApart (leftApart c ls .closed base) ls (fun s => tree c s base), tree c {} key]
  | .node .awaitExpr [attrs, base, dot, w] =>
    let ls := s.leftOf .closed false
    .node .awaitExpr [tree c {} attrs, keepApart (leftApart c ls .closed base) ls (fun s => tree c s base), dot, w]
  | .node .fieldExpr [attrs, base, dot, m] =>
    let ls := s.leftOf .closed false
    .node .fieldExpr [tree c {} attrs, keepApart (leftApart c ls .closed base) ls (fun s => tree c s base), dot, m]
  | .node .tryExpr [attrs, base, mark] =>
    let ls := s.leftOf .closed false
    .node .tryExpr [tree c {} attrs, keepApart (leftApart c ls .closed base) ls (fun s => tree c s base), mark]
  | .node .methodCallExpr [attrs, base, dot, m, turbofish, args] =>
    let ls := s.leftOf .closed false
    .node .methodCallExpr [tree c {} attrs, keepApart (leftApart c ls .closed base) ls (fun s => tree c s base), dot, m,
      tree c {} turbofish, tree c {} args]
  | .node .rangeExpr [attrs, start, limits, stop] =>
    let ls := s.leftOf .range true
    let rs := s.rightOf .range false true
    .node .rangeExpr [tree c {} attrs,
      keepApart (start.isPresent && leftApart c ls .range start) ls (fun s => tree c s start), limits,
      keepApart (stop.isPresent && rightApart c rs .range stop) rs (fun s => tree c s stop)]
  | .node .letExpr [attrs, l, pat, eq, e] =>
    let rs := s.rightOf .binding false false
    .node .letExpr [tree c {} attrs, l, tree c {} pat, eq,
      keepApart (rightApart c rs .binding e) rs (fun s => tree c s e)]
  | .node .unaryExpr [attrs, op, e] =>
    let rs := s.rightOf .prefixed false false
    .node .unaryExpr [tree c {} attrs, op, keepApart (rightApart c rs .prefixed e) rs (fun s => tree c s e)]
  | .node .referenceExpr [attrs, amp, m, e] =>
    let rs := s.rightOf .prefixed false false
    .node .referenceExpr [tree c {} attrs, amp, m, keepApart (rightApart c rs .prefixed e) rs (fun s => tree c s e)]
  | .node .rawAddrExpr [attrs, amp, raw, m, e] =>
    let rs := s.rightOf .prefixed false false
    .node .rawAddrExpr [tree c {} attrs, amp, raw, m, keepApart (rightApart c rs .prefixed e) rs (fun s => tree c s e)]
  | .node .breakExpr [attrs, b, l, value] =>
    .node .breakExpr [tree c {} attrs, b, l, tree c (s.rightOf .jump true true) value]
  | .node .returnExpr [attrs, r, value] => .node .returnExpr [tree c {} attrs, r, tree c (s.rightOf .jump true false) value]
  | .node .yieldExpr [attrs, y, value] => .node .yieldExpr [tree c {} attrs, y, tree c (s.rightOf .jump true false) value]
  | .node .closureExpr [attrs, fors, k, st, a, m, or1, params, or2, output, body] =>
    .node .closureExpr [tree c {} attrs, tree c {} fors, k, st, a, m, or1, tree c {} params, or2, tree c {} output,
      tree c (s.rightOf .jump false false) body]
  | .node .blockExpr [attrs, label, block] =>
    let e : Tree := .node .blockExpr [tree c {} attrs, label, tree c {} block]
    if s.optional && attrs.attrList.isEmpty && !label.isPresent then parenthesized e else e
  | .node .ifExpr [attrs, i, cond, body, other] =>
    .node .ifExpr [tree c {} attrs, i, tree c .head cond, tree c {} body, tree c {} other]
  | .node .whileExpr [attrs, label, w, cond, body] =>
    .node .whileExpr [tree c {} attrs, label, w, tree c .head cond, tree c {} body]
  | .node .forExpr [attrs, label, f, pat, i, iterated, body] =>
    .node .forExpr [tree c {} attrs, label, f, tree c {} pat, i, tree c .head iterated, tree c {} body]
  | .node .matchExpr [attrs, m, value, arms] => .node .matchExpr [tree c {} attrs, m, tree c .head value, tree c {} arms]
  | .node k cs => .node k (trees c cs)
  | .group d o content cl => .group d o (trees c content) cl
  | t => t

/-- Trees with nothing around them. -/
def trees (c : Caution) : List Tree → List Tree
  | [] => []
  | t :: ts => tree c {} t :: trees c ts

end

end Grouping

/-- The tree that reading the text of a tree gives. -/
def Tree.grouped (t : Tree) : Tree := Grouping.tree .least {} t

/-- The tokens of the text of a tree. -/
def Tree.written (t : Tree) : List TokenTree := t.grouped.toTokens

end CallProbe.Source
