import CallProbe.Proofs.Walk.Parts

/-! # Trees whose nodes all pass a test

A test of single nodes, made of every node of a tree, also of those that a walk does not enter. What all nodes of
a tree pass, all nodes of its visited parts pass, so such a test can be carried along an induction over parts. The
test that matters most is that no node is a call of the runtime: such a tree was not probed before. -/

namespace CallProbe.Call

open Source

mutual

/-- Whether all nodes of a tree pass a test. -/
def everyNode (test : Tree → Bool) : Tree → Bool
  | .node k cs => test (.node k cs) && everyNodes test cs
  | .group _ _ content _ => everyNodes test content
  | .arguments _ read => everyNodes test read
  | _ => true

def everyNodes (test : Tree → Bool) : List Tree → Bool
  | [] => true
  | t :: ts => everyNode test t && everyNodes test ts

end

section
variable {test : Tree → Bool}

theorem everyNodes_iff {ts : List Tree} : everyNodes test ts = true ↔ ∀ t ∈ ts, everyNode test t = true := by
  induction ts with
  | nil => simp [everyNodes]
  | cons t ts ih => simp [everyNodes, ih]

theorem everyNode_children {k : Kind} {cs : List Tree} (h : everyNode test (.node k cs) = true) :
    ∀ c ∈ cs, everyNode test c = true := by
  simp only [everyNode, Bool.and_eq_true] at h
  exact everyNodes_iff.mp h.2

theorem everyNode_content {d : Delimiter} {o c : Pos} {ts : List Tree} (h : everyNode test (.group d o ts c) = true) :
    ∀ t ∈ ts, everyNode test t = true :=
  everyNodes_iff.mp (by simpa [everyNode] using h)

theorem mem_of_mem_lastArg {ts : List Tree} {p : Tree} (h : p ∈ lastArg ts) : p ∈ ts := by
  fun_induction lastArg ts with
  | case1 => cases h
  | case2 t => exact h
  | case3 t sep => simp_all
  | case4 t sep rest _ ih => simp [ih h]

theorem everyNode_lastArgOf {cs : List Tree} {p : Tree} (h : ∀ c ∈ cs, everyNode test c = true)
    (hp : p ∈ lastArgOf cs) : everyNode test p = true := by
  fun_cases lastArgOf cs with
  | case1 attrs callee d o args c =>
    have hargs := everyNode_content (h (.group d o [.node .list args] c) (by simp)) (.node .list args) (by simp)
    exact everyNode_children hargs p (mem_of_mem_lastArg hp)
  | case2 => simp [lastArgOf] at hp

/-- What all nodes of a tree pass, all nodes of its visited parts pass. -/
theorem everyNode_parts {t p : Tree} (h : everyNode test t = true) (hp : p ∈ parts t) : everyNode test p = true := by
  obtain ⟨t', hform⟩ := exists_exchange t
  revert p
  generalize parts t = ps at hform
  cases hform with
  | repeated | forLoop | whileLoop | matched =>
    simp [everyNode, everyNodes] at h
    simp [h]
  | closed | hidden | leaf | tokens => exact fun h => by cases h
  | body => exact everyNode_lastArgOf (everyNode_children h)
  | awaitedBody => exact everyNode_lastArgOf (everyNode_children (everyNode_children h (.node .callExpr _) (by simp)))
  | @awaited attrs dot await k => exact everyNode_children (everyNode_children h (.node k ps) (by simp)) _
  | children => exact everyNode_children h _
  | group => exact everyNode_content h _
  | arguments =>
    rw [everyNode] at h
    exact everyNodes_iff.mp h _

end

/-! ### Calls of the runtime -/

/-- Whether no node of a tree is a call of the runtime. -/
def namesNoRuntime : Tree → Bool := everyNode fun t => (runtimeCall? t).isNone

theorem runtimeCall?_of_namesNoRuntime {t : Tree} (h : namesNoRuntime t = true) : runtimeCall? t = none := by
  cases t with
  | node k cs =>
    simp only [namesNoRuntime, everyNode, Bool.and_eq_true, Option.isNone_iff_eq_none] at h
    exact h.1
  | _ => rfl

theorem generatedCall?_of_namesNoRuntime {t : Tree} (h : namesNoRuntime t = true) : generatedCall? t = none := by
  unfold generatedCall?
  split
  · exact runtimeCall?_of_namesNoRuntime (everyNode_children h _ (by simp))
  · exact runtimeCall?_of_namesNoRuntime h

end CallProbe.Call
