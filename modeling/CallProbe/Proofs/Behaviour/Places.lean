import CallProbe.Proofs.Behaviour.Evaluation
import CallProbe.Proofs.Walk.Visits

/-! # Calls and the code between them

An expression is made of calls and of code that holds calls. `outer` are the calls of an expression that lie in no other
of its calls, `frame` is the expression with these left out, and `operandsOf` are the expressions that a call evaluates.
So every call of a body has a place, and `codeOf` is what evaluation needs to know of a body. A call of `finish` is no
call of its own here: it is a guard around the call that is its second argument. -/

namespace CallProbe.Behaviour

open Source Call

/-- Whether a tree is a call that no probe has put there. -/
def isOwnCall (t : Tree) : Bool := (Target.ofCall? t).isSome && (runtimeCall? t).isNone

/-- Whether a tree is a call. A call that is awaited is one together with its `await`, unless a probe has put it there. -/
def isCall : Tree → Bool
  | .node .awaitExpr [_, base, _, _] => isOwnCall base
  | t => (Target.ofCall? t).isSome

/-- What is awaited, if it is not a call together with its `await`. -/
def awaited? : Tree → Option Tree
  | .node .awaitExpr [_, base, _, _] => if isOwnCall base then none else some base
  | _ => none

/-- The parts of a tree that are looked into for calls: those that a walk visits, all those of a call that a probe has
    put there, and what is awaited. -/
def subs (t : Tree) : List Tree :=
  match awaited? t with
  | some base => [base]
  | none => if (runtimeCall? t).isSome then t.children else parts t

/-- A tree with others in the places of those parts. -/
def withSubs (t : Tree) (new : List Tree) : Tree :=
  match awaited? t with
  | some _ => .node .awaitExpr new
  | none => if (runtimeCall? t).isSome then .node .callExpr new else withParts t new

theorem sizeOf_awaited {t base : Tree} (h : awaited? t = some base) : sizeOf base < sizeOf t := by
  fun_cases awaited? t with
  | case1 attrs base' dot await hb => simp [awaited?, hb] at h
  | case2 attrs base' dot await hb =>
    simp [awaited?, hb] at h
    subst h
    simp
    omega
  | case3 => simp [awaited?] at h

theorem sizeOf_subs {t p : Tree} (h : p ∈ subs t) : sizeOf p < sizeOf t := by
  unfold subs at h
  split at h
  · rename_i base hb
    rw [List.mem_singleton] at h
    subst h
    exact sizeOf_awaited hb
  · split at h
    · cases t with
      | node k cs =>
        have := List.sizeOf_lt_of_mem (show p ∈ cs from h)
        simp
        omega
      | _ => cases h
    · exact sizeOf_parts h

/-- What stands for a call that is left out. -/
def blank : Tree := .node .callExpr []

/-- A tree with the calls in it left out. -/
def skeleton (t : Tree) : Tree :=
  withSubs t ((subs t).attach.map fun p => if isCall p.1 then blank else skeleton p.1)
termination_by sizeOf t
decreasing_by exact sizeOf_subs p.2

/-- An expression with its calls left out, itself if it is one. -/
def frame (t : Tree) : Tree := if isCall t then blank else skeleton t

theorem skeleton_eq (t : Tree) : skeleton t = withSubs t ((subs t).map frame) := by
  rw [skeleton, ← List.attach_map_subtype_val (subs t), List.map_map]
  simp [frame, Function.comp_def]

/-- The calls of an expression that lie in no other of its calls. -/
def outer (t : Tree) : List Tree :=
  if isCall t then [t] else (subs t).attach.flatMap fun p => outer p.1
termination_by sizeOf t
decreasing_by exact sizeOf_subs p.2

theorem outer_eq (t : Tree) : outer t = if isCall t then [t] else (subs t).flatMap outer := by
  rw [outer]
  simp

/-! ### Operands -/

/-- The arguments between parentheses. -/
def argsOf : Tree → List Tree
  | .group _ _ [list] _ => list.elements
  | _ => []

/-- Of some arguments, only the last one is visited. -/
def lastOnly : List Tree → List (Tree × Bool)
  | [] => []
  | [t] => [(t, true)]
  | t :: ts => (t, false) :: lastOnly ts

/-- What a call that is not awaited evaluates, in this order: what is called, or whose method is called, and the
    arguments. -/
def operandTrees : Tree → List Tree
  | .node .callExpr [_, callee, args] => callee :: argsOf args
  | .node .methodCallExpr [_, receiver, _, _, _, args] => receiver :: argsOf args
  | _ => []

/-- What a call evaluates, and whether a walk that visits the call visits it too. -/
def operandsOf (t : Tree) : List (Tree × Bool) :=
  match runtimeCall? t with
  | none => (operandTrees (withoutAwait t)).map (·, true)
  | some name => match operandTrees t with
    | [] => []
    | callee :: args => (callee, false) :: if holdsBody name then lastOnly args else args.map (·, false)

/-! ### Guards -/

/-- The guard of a call of `finish` around a call, and that call. -/
def finishing? : Tree → Option (Tree × Tree)
  | .node .callExpr [attrs, callee, .group d o [.node .list [guard, comma, call]] c] =>
    if runtimeCall? (.node .callExpr [attrs, callee, .group d o [.node .list [guard, comma, call]] c]) = some ["finish"] ∧
      isCall call then some (guard, call)
    else none
  | _ => none

theorem lastArgOf_of_finishing {t guard call : Tree} (h : finishing? t = some (guard, call)) :
    ∃ cs, t = .node .callExpr cs ∧ runtimeCall? t = some ["finish"] ∧ isCall call = true ∧ lastArgOf cs = [call] := by
  fun_cases finishing? t with
  | case1 attrs callee d o guard' comma call' c hfinish =>
    rw [finishing?, if_pos hfinish] at h
    cases h
    exact ⟨_, rfl, hfinish.1, hfinish.2, rfl⟩
  | case2 attrs callee d o guard' comma call' c hfinish =>
    rw [finishing?, if_neg hfinish] at h
    cases h
  | case3 t hn => simp [finishing?] at h

theorem sizeOf_finishing {t guard call : Tree} (h : finishing? t = some (guard, call)) : sizeOf call < sizeOf t := by
  obtain ⟨cs, rfl, -, -, hlast⟩ := lastArgOf_of_finishing h
  have hlt : sizeOf call < sizeOf cs := sizeOf_lastArgOf (by simp [hlast])
  simp
  omega

/-- The guards around a call, the outermost first, and the call in them. -/
def peel (t : Tree) : List Tree × Tree :=
  match _h : finishing? t with
  | some (guard, call) => (guard :: (peel call).1, (peel call).2)
  | none => ([], t)
termination_by sizeOf t
decreasing_by all_goals exact sizeOf_finishing _h

theorem peel_of_some {t guard call : Tree} (h : finishing? t = some (guard, call)) :
    peel t = (guard :: (peel call).1, (peel call).2) := by
  rw [peel]
  split
  · rename_i hf
    rw [h] at hf
    cases hf
    rfl
  · rename_i hf
    rw [h] at hf
    cases hf

theorem peel_of_none {t : Tree} (h : finishing? t = none) : peel t = ([], t) := by
  rw [peel]
  split
  · rename_i hf
    rw [h] at hf
    cases hf
  · rfl

theorem isCall_peel {t : Tree} (h : isCall t = true) : isCall (peel t).2 = true := by
  cases hf : finishing? t with
  | none =>
    rw [peel_of_none hf]
    exact h
  | some f =>
    obtain ⟨-, -, -, hcall, -⟩ := lastArgOf_of_finishing hf
    have := sizeOf_finishing hf
    rw [peel_of_some hf]
    exact isCall_peel hcall
termination_by sizeOf t

theorem isCall_of_mem_outer {t c : Tree} (h : c ∈ outer t) : isCall c = true := by
  rw [outer_eq] at h
  split at h
  · rename_i ht
    rw [List.mem_singleton.mp h]
    exact ht
  · obtain ⟨p, hp, hc⟩ := List.mem_flatMap.mp h
    have := sizeOf_subs hp
    exact isCall_of_mem_outer hc
termination_by sizeOf t

/-- What evaluation needs to know of a call. -/
def viewOf (t : Tree) : View where
  guards := (peel t).1
  label := skeleton (peel t).2
  operands := (operandsOf (peel t).2).map fun o => frame o.1

/-- A call in one of some operands, and whether it is visited: it is if the operand is. -/
def callIn (os : List (Tree × Bool)) (step : Nat × Nat) : Option (Tree × Bool) :=
  os[step.1]?.bind fun o => (outer o.1)[step.2]?.map (·, o.2)

/-- The operands of a call, its guards left aside. In a call that is not visited, none of them is. -/
def inside (call : Tree × Bool) : List (Tree × Bool) :=
  (operandsOf (peel call.1).2).map fun o => (o.1, call.2 && o.2)

/-- The call at a place, given the operands that the place starts from, and whether it is visited. -/
def callAt : List (Tree × Bool) → Place → Option (Tree × Bool)
  | _, [] => none
  | os, [step] => callIn os step
  | os, step :: next :: rest => (callIn os step).bind fun call => callAt (inside call) (next :: rest)

theorem callIn_eq_some {os : List (Tree × Bool)} {step : Nat × Nat} {call : Tree × Bool} (h : callIn os step = some call) :
    ∃ o ∈ os, call.1 ∈ outer o.1 ∧ call.2 = o.2 := by
  obtain ⟨o, ho, hcall⟩ := Option.bind_eq_some_iff.mp h
  obtain ⟨t, ht, rfl⟩ := Option.map_eq_some_iff.mp hcall
  exact ⟨o, List.mem_of_getElem? ho, List.mem_of_getElem? ht, rfl⟩

/-- The calls of a body, which is taken for the only operand at the place of no call. -/
def codeOf (body : Tree) : Code := fun p => (callAt [(body, true)] p).map fun c => viewOf c.1

/-- Evaluates a body. -/
def Language.evalBody {σ ν ε κ : Type} (L : Language σ ν ε κ) (body : Tree) (n : Nat) (s : σ) :
    Option (Run σ ν (Except ε ν)) := L.eval (codeOf body) n (L.start [] 0 (frame body) s)

end CallProbe.Behaviour
