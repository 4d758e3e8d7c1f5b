import CallProbe.Guard.Eval
import CallProbe.Source.Tree

/-! # Evaluation with guards

What a program does between its calls is left open: a `Language` says what comes of the code around calls, of a call
whose operands have values, and of code that goes on after a call, and it may enter any call any number of times, so
that branches, loops, closures and early exits are all covered. What is fixed is what a call does: its guards are made,
its operands are evaluated from left to right, it is called, and its guards are dropped on every way out.

`eval_guardWith` says what one more innermost guard changes: nothing but that it is made before and dropped after each
evaluation of its call. `balanced_eval` says that guards are made and dropped like brackets. -/

namespace CallProbe.Behaviour

open Source

/-- Where a call stands in code: on the way to it, which operand of the call before, and which call in that operand. -/
abbrev Place := List (Nat × Nat)

/-- What is known of a call. -/
structure View where
  /-- The guards around it, the outermost first. -/
  guards : List Tree
  /-- The call with its operands left out. -/
  label : Tree
  /-- What is called or whose method is called, and the arguments, all with the calls in them left out. -/
  operands : List Tree

/-- The calls of some code. -/
abbrev Code := Place → Option View

/-- What happens during an evaluation; `ν` are the values. -/
inductive Event (ν : Type) where
  /-- A guard was made. -/
  | before (place : Place) (guard : Tree)
  /-- The evaluation of a call started, with its operands. -/
  | began (place : Place)
  | called (place : Place) (label : Tree) (values : List ν)
  /-- The evaluation of a call is over, by a value or by an exit. -/
  | ended (place : Place)
  /-- A guard was dropped. -/
  | after (place : Place) (guard : Tree)

/-- What comes next: an evaluation is over, by a value or by an exit such as a panic or an early return, or a call is
    evaluated before the rest. -/
inductive Next (σ ν ε κ : Type) where
  | done (state : σ) (outcome : Except ε ν)
  | enter (place : Place) (state : σ) (rest : κ)

/-- All that a program does by itself; `σ` are states, `ε` exits, and `κ` says how to go on after a call. -/
structure Language (σ ν ε κ : Type) where
  /-- Starts the evaluation of an operand, given its call, its number and itself with the calls in it left out. -/
  start : Place → Nat → Tree → σ → Next σ ν ε κ
  /-- Calls, with the values of the operands. -/
  apply : Place → Tree → List ν → σ → Next σ ν ε κ
  resume : κ → σ → Except ε ν → Next σ ν ε κ

/-- What happened, the state after it, and what came of it. -/
structure Run (σ ν ω : Type) where
  log : List (Event ν)
  state : σ
  outcome : ω

/-- What happens under guards, the first of which is outermost. -/
def guardAll {ν : Type} (p : Place) (guards : List Tree) (log : List (Event ν)) : List (Event ν) :=
  guards.foldr (fun g => Guard.guarded (.before p g) (.after p g)) log

section
variable {σ ν ε κ : Type}

namespace Language
variable (L : Language σ ν ε κ) (run : Next σ ν ε κ → Option (Run σ ν (Except ε ν)))

/-- Evaluates operands from left to right, from a number on. The first exit ends it. -/
def operands (p : Place) : Nat → List Tree → σ → Option (Run σ ν (Except ε (List ν)))
  | _, [], s => some ⟨[], s, .ok []⟩
  | j, operand :: rest, s =>
    (run (L.start p j operand s)).bind fun r => match r.outcome with
      | .error e => some ⟨r.log, r.state, .error e⟩
      | .ok v => (operands p (j + 1) rest r.state).map fun rs => ⟨r.log ++ rs.log, rs.state, rs.outcome.map (v :: ·)⟩

/-- Evaluates a call without its guards. An exit from an operand ends it before anything is called. -/
def call (p : Place) (view : View) (s : σ) : Option (Run σ ν (Except ε ν)) :=
  (L.operands run p 0 view.operands s).bind fun rs => match rs.outcome with
    | .error e => some ⟨.began p :: rs.log ++ [.ended p], rs.state, .error e⟩
    | .ok values => (run (L.apply p view.label values rs.state)).map fun r =>
      ⟨.began p :: rs.log ++ .called p view.label values :: r.log ++ [.ended p], r.state, r.outcome⟩

/-- Evaluates code to the end, if that is reached within some number of steps. -/
def eval (code : Code) : Nat → Next σ ν ε κ → Option (Run σ ν (Except ε ν))
  | 0, _ => none
  | _ + 1, .done s outcome => some ⟨[], s, outcome⟩
  | n + 1, .enter p s rest =>
    (code p).bind fun view => (L.call (eval code n) p view s).bind fun r =>
      (eval code n (L.resume rest r.state r.outcome)).map fun more =>
        ⟨guardAll p view.guards r.log ++ more.log, more.state, more.outcome⟩

end Language

/-! ### One more guard -/

/-- Code in which some calls have one more guard, inside of the others. -/
def Code.guardWith (code : Code) (guard : Place → Option Tree) : Code := fun p =>
  (code p).map fun view => { view with guards := view.guards ++ (guard p).toList }

/-- What happens instead of an event once some calls have one more guard. -/
def Event.guardWith (guard : Place → Option Tree) : Event ν → List (Event ν)
  | .began p => (guard p).toList.map (.before p) ++ [.began p]
  | .ended p => .ended p :: (guard p).toList.map (.after p)
  | e => [e]

/-- What happens once some calls have one more guard. -/
def withGuard (guard : Place → Option Tree) (log : List (Event ν)) : List (Event ν) := log.flatMap (Event.guardWith guard)

def Run.withGuard {ω : Type} (guard : Place → Option Tree) (r : Run σ ν ω) : Run σ ν ω :=
  { r with log := Behaviour.withGuard guard r.log }

section
variable (guard : Place → Option Tree)

theorem withGuard_append (log more : List (Event ν)) :
    withGuard guard (log ++ more) = withGuard guard log ++ withGuard guard more := List.flatMap_append

theorem withGuard_guardAll (p : Place) (guards : List Tree) (log : List (Event ν)) :
    withGuard guard (guardAll p guards log) = guardAll p guards (withGuard guard log) := by
  induction guards with
  | nil => rfl
  | cons g guards ih =>
    simp only [guardAll, List.foldr_cons, Guard.guarded] at ih ⊢
    rw [withGuard_append, ← ih]
    rfl

/-- The guard that is inside of the others stands next to the evaluation of its call. -/
theorem guardAll_append (p : Place) (guards : List Tree) (log : List (Event ν)) :
    guardAll p (guards ++ (guard p).toList) (.began p :: withGuard guard log ++ [.ended p]) =
      withGuard guard (guardAll p guards (.began p :: log ++ [.ended p])) := by
  have hcall : guardAll p (guard p).toList (.began p :: withGuard guard log ++ [.ended p]) =
      withGuard guard (.began p :: log ++ [.ended p]) := by
    cases hg : guard p with
    | none => simp [guardAll, withGuard, Event.guardWith, hg]
    | some g => simp [guardAll, Guard.guarded, withGuard, Event.guardWith, hg]
  rw [withGuard_guardAll, ← hcall, guardAll, guardAll, guardAll, List.foldr_append]

variable (L : Language σ ν ε κ) {run run' : Next σ ν ε κ → Option (Run σ ν (Except ε ν))}

theorem operands_withGuard (h : ∀ next, run' next = (run next).map (Run.withGuard guard)) (p : Place) (j : Nat)
    (operands : List Tree) (s : σ) :
    L.operands run' p j operands s = (L.operands run p j operands s).map (Run.withGuard guard) := by
  induction operands generalizing j s with
  | nil => rfl
  | cons operand rest ih =>
    rw [Language.operands, Language.operands, h]
    cases run (L.start p j operand s) with
    | none => rfl
    | some r =>
      obtain ⟨log, state, outcome⟩ := r
      cases outcome with
      | error e => rfl
      | ok v =>
        simp only [Option.map_some, Option.bind_some, Run.withGuard, ih]
        cases L.operands run p (j + 1) rest state with
        | none => rfl
        | some rs => simp [Run.withGuard, withGuard_append]

/-- A call without its guards: what happens inside is what happens with the guards there, and the rest is as it was. -/
theorem call_withGuard (h : ∀ next, run' next = (run next).map (Run.withGuard guard)) (p : Place) (view view' : View)
    (hlabel : view'.label = view.label) (hoperands : view'.operands = view.operands) (s : σ) :
    ∃ inside : Option (Run σ ν (Except ε ν)),
      L.call run p view s = inside.map (fun r => { r with log := .began p :: r.log ++ [.ended p] }) ∧
      L.call run' p view' s = inside.map (fun r => { r with log := .began p :: withGuard guard r.log ++ [.ended p] }) := by
  rw [Language.call, Language.call, operands_withGuard guard L h, hlabel, hoperands]
  cases L.operands run p 0 view.operands s with
  | none => exact ⟨none, rfl, rfl⟩
  | some rs =>
    obtain ⟨log, state, outcome⟩ := rs
    cases outcome with
    | error e => exact ⟨some ⟨log, state, .error e⟩, rfl, rfl⟩
    | ok values =>
      simp only [Option.map_some, Option.bind_some, Run.withGuard, h]
      cases run (L.apply p view.label values state) with
      | none => exact ⟨none, rfl, rfl⟩
      | some r =>
        refine ⟨some ⟨log ++ .called p view.label values :: r.log, r.state, r.outcome⟩, by simp, ?_⟩
        simp [Run.withGuard, withGuard, Event.guardWith]

/-- One more guard around some calls adds its own events next to each evaluation of these calls, and changes nothing
    else: not the state, not what comes of it, and not how many steps it takes. -/
theorem eval_guardWith (code : Code) (n : Nat) (next : Next σ ν ε κ) :
    L.eval (code.guardWith guard) n next = (L.eval code n next).map (Run.withGuard guard) := by
  induction n generalizing next with
  | zero => rfl
  | succ n ih =>
    cases next with
    | done s outcome => rfl
    | enter p s rest =>
      rw [Language.eval, Language.eval, Code.guardWith]
      cases code p with
      | none => rfl
      | some view =>
        obtain ⟨inside, hcall, hcall'⟩ := call_withGuard guard L ih p view
          { view with guards := view.guards ++ (guard p).toList } rfl rfl s
        simp only [Option.map_some, Option.bind_some, hcall, hcall']
        cases inside with
        | none => rfl
        | some r =>
          simp only [Option.map_some, Option.bind_some, ih, guardAll_append]
          cases L.eval code n (L.resume rest r.state r.outcome) with
          | none => rfl
          | some more => simp [Run.withGuard, withGuard_append]

end

/-! ### What holds of every log -/

section
variable (L : Language σ ν ε κ) {run : Next σ ν ε κ → Option (Run σ ν (Except ε ν))} {P : List (Event ν) → Prop}

theorem log_operands (hnil : P []) (happend : ∀ log more, P log → P more → P (log ++ more))
    (hrun : ∀ next r, run next = some r → P r.log) (p : Place) (j : Nat) (operands : List Tree) (s : σ)
    {rs : Run σ ν (Except ε (List ν))} (hrs : L.operands run p j operands s = some rs) : P rs.log := by
  induction operands generalizing j s rs with
  | nil =>
    cases hrs
    exact hnil
  | cons operand rest ih =>
    rw [Language.operands, Option.bind_eq_some_iff] at hrs
    obtain ⟨r, hr, hrs⟩ := hrs
    have hfirst := hrun _ r hr
    split at hrs
    · cases hrs
      exact hfirst
    · obtain ⟨others, hothers, rfl⟩ := Option.map_eq_some_iff.mp hrs
      exact happend _ _ hfirst (ih _ _ hothers)

theorem log_call (hnil : P []) (happend : ∀ log more, P log → P more → P (log ++ more))
    (hcalled : ∀ p label values, P [.called p label values]) (hrun : ∀ next r, run next = some r → P r.log) (p : Place)
    (view : View) (s : σ) {r : Run σ ν (Except ε ν)} (hr : L.call run p view s = some r) :
    ∃ log, r.log = .began p :: log ++ [.ended p] ∧ P log := by
  rw [Language.call, Option.bind_eq_some_iff] at hr
  obtain ⟨rs, hrs, hr⟩ := hr
  have hoperands := log_operands L hnil happend hrun p 0 view.operands s hrs
  split at hr
  · cases hr
    exact ⟨rs.log, rfl, hoperands⟩
  · rename_i values _
    obtain ⟨body, hbody, rfl⟩ := Option.map_eq_some_iff.mp hr
    have hafter := happend _ _ (hcalled p view.label values) (hrun _ body hbody)
    exact ⟨rs.log ++ .called p view.label values :: body.log, by simp, happend _ _ hoperands hafter⟩

/-- What holds of nothing, of a call that is made, of two logs one after the other, and of a whole evaluation of a call if
    it holds of what happens inside, holds of every log. -/
theorem log_eval {code : Code} (hnil : P []) (happend : ∀ log more, P log → P more → P (log ++ more))
    (hcalled : ∀ p label values, P [.called p label values])
    (hcall : ∀ p view log, code p = some view → P log → P (guardAll p view.guards (.began p :: log ++ [.ended p])))
    (n : Nat) (next : Next σ ν ε κ) {r : Run σ ν (Except ε ν)} (hr : L.eval code n next = some r) : P r.log := by
  induction n generalizing next r with
  | zero => cases hr
  | succ n ih =>
    cases next with
    | done s outcome =>
      cases hr
      exact hnil
    | enter p s rest =>
      rw [Language.eval, Option.bind_eq_some_iff] at hr
      obtain ⟨view, hview, hr⟩ := hr
      obtain ⟨body, hbody, hr⟩ := Option.bind_eq_some_iff.mp hr
      obtain ⟨more, hmore, rfl⟩ := Option.map_eq_some_iff.mp hr
      obtain ⟨log, hlog, hP⟩ := log_call L hnil happend hcalled (fun next r => ih next) p view s hbody
      exact happend _ _ (hlog ▸ hcall p view log hview hP) (ih _ hmore)

end

/-! ### Brackets -/

/-- The events of guards alone. -/
def Event.isGuard : Event ν → Bool
  | .before _ _ | .after _ _ => true
  | _ => false

/-- Guards are made and dropped like brackets: each is dropped once, after all that were made since. -/
inductive Balanced : List (Event ν) → Prop where
  | nil : Balanced []
  | pair (p : Place) (g : Tree) {inside rest : List (Event ν)} :
    Balanced inside → Balanced rest → Balanced (.before p g :: inside ++ .after p g :: rest)

theorem Balanced.append {log more : List (Event ν)} (h : Balanced log) (hmore : Balanced more) : Balanced (log ++ more) := by
  induction h with
  | nil => exact hmore
  | pair p g hinside hrest _ ih =>
    simpa using Balanced.pair p g hinside ih

theorem balanced_guardAll (p : Place) (guards : List Tree) {log : List (Event ν)} (h : Balanced (log.filter Event.isGuard)) :
    Balanced ((guardAll p guards log).filter Event.isGuard) := by
  induction guards with
  | nil => exact h
  | cons g guards ih =>
    have hpair := Balanced.pair p g ih .nil
    simpa [guardAll, Guard.guarded, List.filter_cons, Event.isGuard] using hpair

/-- In every evaluation, guards are made and dropped like brackets. -/
theorem balanced_eval (L : Language σ ν ε κ) {code : Code} {n : Nat} {next : Next σ ν ε κ} {r : Run σ ν (Except ε ν)}
    (hr : L.eval code n next = some r) : Balanced (r.log.filter Event.isGuard) := by
  refine log_eval L (P := fun log => Balanced (log.filter Event.isGuard)) .nil (fun log more h hmore => ?_)
    (fun p label values => .nil) (fun p view log _ h => balanced_guardAll p view.guards ?_) n next hr
  · rw [List.filter_append]
    exact h.append hmore
  · simpa [List.filter_cons, Event.isGuard] using h

/-! ### How often guards are made -/

def Event.isBefore (p : Place) : Event ν → Bool
  | .before q _ => p = q
  | _ => false

def Event.begins (p : Place) : Event ν → Bool
  | .began q => p = q
  | _ => false

/-- The number of guards around a call. -/
def Code.guardCount (code : Code) (p : Place) : Nat := ((code p).map fun view => view.guards.length).getD 0

theorem before_guardAll (p q : Place) (guards : List Tree) (log : List (Event ν)) :
    (guardAll p guards log).countP (Event.isBefore q) = (if q = p then guards.length else 0) + log.countP (Event.isBefore q) := by
  induction guards with
  | nil => simp [guardAll]
  | cons g guards ih =>
    simp only [guardAll, List.foldr_cons, Guard.guarded] at ih ⊢
    simp only [List.cons_append, List.countP_cons, List.countP_append, ih, Event.isBefore, decide_eq_true_eq,
      List.length_cons, List.countP_nil]
    split
    · simp
      omega
    · simp

theorem begins_guardAll (p q : Place) (guards : List Tree) (log : List (Event ν)) :
    (guardAll p guards log).countP (Event.begins q) = log.countP (Event.begins q) := by
  induction guards with
  | nil => rfl
  | cons g guards ih =>
    simp only [guardAll, List.foldr_cons, Guard.guarded] at ih ⊢
    simp [ih, Event.begins]

/-- Each time the evaluation of a call begins, each of its guards was made once. -/
theorem before_eval (L : Language σ ν ε κ) {code : Code} {n : Nat} {next : Next σ ν ε κ} {r : Run σ ν (Except ε ν)}
    (hr : L.eval code n next = some r) (q : Place) :
    r.log.countP (Event.isBefore q) = code.guardCount q * r.log.countP (Event.begins q) := by
  refine log_eval L (P := fun log => log.countP (Event.isBefore q) = code.guardCount q * log.countP (Event.begins q)) rfl
    (fun log more h hmore => ?_) (fun p label values => rfl) (fun p view log hview h => ?_) n next hr
  · rw [List.countP_append, List.countP_append, h, hmore, Nat.mul_add]
  · rw [before_guardAll, begins_guardAll]
    simp only [List.cons_append, List.countP_cons, List.countP_append, h, Event.isBefore, Event.begins]
    by_cases hq : q = p
    · subst hq
      have hcount : code.guardCount q = view.guards.length := by simp [Code.guardCount, hview]
      simp [hcount, Nat.mul_add]
      omega
    · simp [hq]

/-! ### What one more guard adds -/

/-- A call as it is made: where, which, and with which values. -/
def Event.made? : Event ν → Option (Place × Tree × List ν)
  | .called p label values => some (p, label, values)
  | _ => none

section
variable (guard : Place → Option Tree)

/-- What a log shows apart from guards stays the same. -/
theorem filterMap_withGuard {α : Type} {f : Event ν → Option α} (hbefore : ∀ p g, f (.before p g) = none)
    (hafter : ∀ p g, f (.after p g) = none) (log : List (Event ν)) : (withGuard guard log).filterMap f = log.filterMap f := by
  induction log with
  | nil => rfl
  | cons e log ih =>
    have hstep : (Event.guardWith guard e).filterMap f = [e].filterMap f := by
      cases e with
      | began p => cases h : guard p <;> simp [Event.guardWith, h, hbefore]
      | ended p => cases h : guard p <;> simp [Event.guardWith, h, hafter, List.filterMap_cons]
      | _ => rfl
    rw [withGuard, List.flatMap_cons, List.filterMap_append, ← withGuard, ih, hstep, ← List.filterMap_append,
      List.singleton_append]

/-- As many evaluations of a call begin. -/
theorem begins_withGuard (p : Place) (log : List (Event ν)) :
    (withGuard guard log).countP (Event.begins p) = log.countP (Event.begins p) := by
  have hsame := filterMap_withGuard guard (f := Option.guard (Event.begins p)) (by simp [Event.begins])
    (by simp [Event.begins]) log
  rw [List.filterMap_eq_filter] at hsame
  rw [List.countP_eq_length_filter, hsame, List.countP_eq_length_filter]

theorem guardCount_guardWith (code : Code) {p : Place} (hp : (code p).isSome = true) :
    (code.guardWith guard).guardCount p = code.guardCount p + (guard p).toList.length := by
  obtain ⟨view, hview⟩ := Option.isSome_iff_exists.mp hp
  simp [Code.guardCount, Code.guardWith, hview]

end

end

end CallProbe.Behaviour
