import CallProbe.Proofs.Behaviour.Evaluation

/-! # Nested calls

A call whose operands are calls, in two readings: `Guard.Call.eval` evaluates it as it stands, and a language that does
nothing between its calls evaluates the code that it is. `eval_language` says that both do the same in the same order and
come to the same, so that what holds of every language holds of nested calls. -/

namespace CallProbe.Guard

open Source Behaviour

/-! ### Calls as code -/

namespace Call

def name : Call → String
  | .mk name _ _ _ _ => name

def args : Call → List Call
  | .mk _ args _ _ _ => args

def wrapper : Call → Wrapper
  | .mk _ _ wrapper _ _ => wrapper

/-- What comes of the call itself, given the sum of its arguments. -/
def result : Call → Int → Outcome
  | .mk name _ _ fails value, total => if fails then .error name else .ok (value + total)

/-- The call at a place. An argument holds one call, number zero. -/
def at? (c : Call) : Place → Option Call
  | [] => some c
  | (j, 0) :: place => (c.args[j]?).bind fun a => a.at? place
  | (_, _ + 1) :: _ => none

/-- The guards of a call: one, unless it is bare. -/
def guards (c : Call) : List Tree := if c.wrapper = .bare then [] else [.leaf (.word c.name Pos.none)]

/-- The operands of a call, with the calls in them left out. -/
def operands (args : List Call) : List Tree := args.map fun a => .leaf (.word a.name Pos.none)

/-- The code of a nested call. -/
def code (c : Call) : Code := fun place =>
  (c.at? place).map fun d => ⟨d.guards, .leaf (.word d.name Pos.none), operands d.args⟩

/-- The sum of the values of arguments. -/
def sumOf : List Int → Int
  | [] => 0
  | v :: values => v + sumOf values

/-- The language of a nested call: an operand is the call in it, and a call does nothing but fail or give its value. -/
def language (c : Call) : Language Unit Int String Unit where
  start place j _ s := .enter (place ++ [(j, 0)]) s ()
  apply place _ values s := .done s ((c.at? place).elim (.ok 0) fun d => d.result (sumOf values))
  resume _ s outcome := .done s outcome

end Call

/-- What is seen of a guard when it is made. -/
def Wrapper.made (name : String) : Wrapper → List Event
  | bare => []
  | before => [.record name]
  | around => [.before name]

/-- What is seen of a guard when it is dropped. -/
def Wrapper.dropped (name : String) : Wrapper → List Event
  | around => [.after name]
  | _ => []

/-- What is seen of an event in the evaluation of the code of a nested call. -/
def Call.seen (c : Call) : Behaviour.Event Int → List Event
  | .before place _ => (c.at? place).elim [] fun d => d.wrapper.made d.name
  | .called place _ _ => (c.at? place).elim [] fun d => [.call d.name]
  | .after place _ => (c.at? place).elim [] fun d => d.wrapper.dropped d.name
  | .began _ | .ended _ => []

/-- Whether an event is the value of a call, of which a log of the code does not tell. -/
def Event.isReturned : Event → Bool
  | .returned _ _ => true
  | _ => false

/-- What happens, without the values. -/
def happened (log : List Event) : List Event := log.filter (!·.isReturned)

@[simp]
theorem happened_append (log more : List Event) : happened (log ++ more) = happened log ++ happened more :=
  List.filter_append ..

@[simp]
theorem happened_call (name : String) (log : List Event) : happened (.call name :: log) = .call name :: happened log := rfl

@[simp]
theorem happened_returned (name : String) (value : Int) : happened [.returned name value] = [] := rfl

theorem Call.at?_append {c d : Call} {place : Place} (h : c.at? place = some d) (more : Place) :
    c.at? (place ++ more) = d.at? more := by
  induction place generalizing c with
  | nil =>
    cases h
    rfl
  | cons step place ih =>
    obtain ⟨j, k⟩ := step
    cases k with
    | zero =>
      obtain ⟨a, ha, h⟩ := Option.bind_eq_some_iff.mp h
      rw [List.cons_append, at?, ha, Option.bind_some]
      exact ih h
    | succ k => cases h

/-- A wrapper adds what is seen of its guard. -/
theorem Wrapper.wrap_eq (w : Wrapper) (name : String) (body : List Event × Outcome) :
    w.wrap name body = (w.made name ++ body.1 ++ w.dropped name, body.2) := by
  cases w <;> simp [wrap, made, dropped, guarded]

@[simp]
theorem Wrapper.happened_made (w : Wrapper) (name : String) : happened (w.made name) = w.made name := by
  cases w <;> rfl

@[simp]
theorem Wrapper.happened_dropped (w : Wrapper) (name : String) : happened (w.dropped name) = w.dropped name := by
  cases w <;> rfl

variable {c d : Call} {place : Place}

/-- What is seen of the guards around a call. -/
theorem Call.seen_guardAll (h : c.at? place = some d) (log : List (Behaviour.Event Int)) :
    (guardAll place d.guards log).flatMap c.seen = d.wrapper.made d.name ++ log.flatMap c.seen ++ d.wrapper.dropped d.name := by
  unfold Call.guards
  split
  · rename_i hbare
    simp [guardAll, hbare, Wrapper.made, Wrapper.dropped]
  · simp [guardAll, guarded, Call.seen, h]

/-! ### The two evaluations -/

/-- A call one of whose arguments fails. -/
theorem Call.eval_of_error (c : Call) {log : List Event} {e : String} (h : evalArgs c.args = (log, .error e)) :
    c.eval.2 = .error e ∧ happened c.eval.1 = c.wrapper.made c.name ++ happened log ++ c.wrapper.dropped c.name := by
  obtain ⟨name, args, wrapper, fails, value⟩ := c
  simp only [Call.args] at h
  simp [eval, h, Wrapper.wrap_eq, Call.wrapper, Call.name]

/-- A call whose arguments have values. -/
theorem Call.eval_of_ok (c : Call) {log : List Event} {total : Int} (h : evalArgs c.args = (log, .ok total)) :
    c.eval.2 = c.result total ∧
      happened c.eval.1 = c.wrapper.made c.name ++ (happened log ++ [.call c.name]) ++ c.wrapper.dropped c.name := by
  obtain ⟨name, args, wrapper, fails, value⟩ := c
  simp only [Call.args] at h
  cases fails <;> simp [eval, h, Wrapper.wrap_eq, Call.wrapper, Call.name, Call.result]

mutual

/-- Both evaluations of a call at some place, given enough steps. -/
theorem eval_at (c : Call) : ∀ (d : Call) (place : Place), c.at? place = some d → ∃ least, ∀ n ≥ least, ∃ log,
    c.language.eval c.code n (.enter place () ()) = some ⟨log, (), d.eval.2⟩ ∧ log.flatMap c.seen = happened d.eval.1
  | .mk name args wrapper fails value, place, h => by
    obtain ⟨least, hleast⟩ := operands_at c args place 0 fun k a ha => by
      rw [Nat.zero_add, Call.at?_append h]
      simp [Call.at?, Call.args, ha]
    refine ⟨least + 2, fun n hn => ?_⟩
    obtain ⟨m, rfl⟩ : ∃ m, n = m + 2 := ⟨n - 2, by omega⟩
    obtain ⟨⟨log, _, outcome⟩, hrun, hseen, hsum⟩ := hleast (m + 1) (by omega)
    obtain ⟨d, hd⟩ : ∃ d, d = Call.mk name args wrapper fails value := ⟨_, rfl⟩
    obtain rfl : d.args = args := hd ▸ rfl
    rw [← hd] at h ⊢
    have hview : c.code place = some ⟨d.guards, .leaf (.word d.name Pos.none), Call.operands d.args⟩ := by
      rw [Call.code, h]
      rfl
    have hresume : ∀ outcome, c.language.resume () () outcome = .done () outcome := fun _ => rfl
    cases hargs : evalArgs d.args with
    | mk argLog sum =>
      simp only [hargs] at hseen hsum
      cases outcome with
      | error e =>
        obtain rfl : Except.error e = sum := hsum
        obtain ⟨hresult, hhappened⟩ := d.eval_of_error hargs
        refine ⟨guardAll place d.guards (.began place :: log ++ [.ended place]), ?_, ?_⟩
        · simp [Language.eval, hview, Language.call, hrun, hresume, hresult]
        · rw [Call.seen_guardAll h, hhappened]
          simp [Call.seen, hseen]
      | ok values =>
        obtain rfl : Except.ok (Call.sumOf values) = sum := hsum
        obtain ⟨hresult, hhappened⟩ := d.eval_of_ok hargs
        have happly : c.language.apply place (.leaf (.word d.name Pos.none)) values () = .done () (d.result (Call.sumOf values)) := by
          simp [Call.language, h]
        refine ⟨guardAll place d.guards
          (.began place :: log ++ .called place (.leaf (.word d.name Pos.none)) values :: [.ended place]), ?_, ?_⟩
        · simp [Language.eval, hview, Language.call, hrun, happly, hresume, hresult]
        · rw [Call.seen_guardAll h, hhappened]
          simp [Call.seen, hseen, h]

/-- Both evaluations of arguments, which have the numbers from `j` on. -/
theorem operands_at (c : Call) : ∀ (args : List Call) (place : Place) (j : Nat),
    (∀ k a, args[k]? = some a → c.at? (place ++ [(j + k, 0)]) = some a) → ∃ least, ∀ n ≥ least,
      ∃ rs : Run Unit Int (Except String (List Int)),
        c.language.operands (c.language.eval c.code n) place j (Call.operands args) () = some rs ∧
          rs.log.flatMap c.seen = happened (evalArgs args).1 ∧ rs.outcome.map Call.sumOf = (evalArgs args).2
  | [], place, j, h => ⟨0, fun n _ => ⟨⟨[], (), .ok []⟩, rfl, rfl, rfl⟩⟩
  | a :: rest, place, j, h => by
    obtain ⟨first, hfirst⟩ := eval_at c a (place ++ [(j, 0)]) (h 0 a rfl)
    obtain ⟨others, hothers⟩ := operands_at c rest place (j + 1) fun k b hb => by
      have hk := h (k + 1) b hb
      rwa [Nat.add_comm k 1, ← Nat.add_assoc] at hk
    refine ⟨max first others, fun n hn => ?_⟩
    obtain ⟨log, heval, hseen⟩ := hfirst n (by omega)
    obtain ⟨⟨more, _, outcome⟩, hrs, hseen', hsum⟩ := hothers n (by omega)
    have hoperands : Call.operands (a :: rest) = .leaf (.word a.name Pos.none) :: Call.operands rest := rfl
    have hstart : c.language.start place j (.leaf (.word a.name Pos.none)) () = .enter (place ++ [(j, 0)]) () () := rfl
    cases ha : a.eval with
    | mk happenings result =>
      simp only [ha] at heval hseen
      cases result with
      | error e =>
        refine ⟨⟨log, (), .error e⟩, ?_, ?_, ?_⟩
        · simp [hoperands, Language.operands, hstart, heval]
        · simp [evalArgs, ha, hseen]
        · simp [evalArgs, ha, Except.map]
      | ok v =>
        refine ⟨⟨log ++ more, (), outcome.map (v :: ·)⟩, ?_, ?_, ?_⟩
        · simp [hoperands, Language.operands, hstart, heval, hrs]
        · simp [evalArgs, ha, hseen, hseen']
        · cases outcome <;> simp [evalArgs, ha, ← hsum, Except.map, Call.sumOf]

end

/-- A nested call is evaluated as the code that it is: the same guards are made and dropped and the same calls are made, in
    the same order, and the same comes of it. -/
theorem eval_language (c : Call) : ∃ n log, c.language.eval c.code n (.enter [] () ()) = some ⟨log, (), c.eval.2⟩ ∧
    log.flatMap c.seen = happened c.eval.1 := by
  obtain ⟨least, hleast⟩ := eval_at c c [] rfl
  obtain ⟨log, hrun, hseen⟩ := hleast least (Nat.le_refl _)
  exact ⟨least, log, hrun, hseen⟩

/-! ### Brackets -/

/-- What is seen of guards that act before and after their calls. -/
def Event.isGuard : Event → Bool
  | .before _ | .after _ => true
  | _ => false

/-- Guards act like brackets: each is dropped once, after all that were made since. -/
inductive Brackets : List Event → Prop where
  | nil : Brackets []
  | pair (name : String) {inside rest : List Event} :
    Brackets inside → Brackets rest → Brackets (.before name :: inside ++ .after name :: rest)

theorem Brackets.append {log more : List Event} (h : Brackets log) (hmore : Brackets more) : Brackets (log ++ more) := by
  induction h with
  | nil => exact hmore
  | pair name hinside hrest _ ih => simpa using Brackets.pair name hinside ih

theorem filter_happened (log : List Event) : (happened log).filter Event.isGuard = log.filter Event.isGuard := by
  rw [happened, List.filter_filter]
  refine List.filter_congr fun e _ => ?_
  cases e <;> rfl

/-- Nothing is seen of a guard but in the events of guards. -/
theorem filter_seen (c : Call) (log : List (Behaviour.Event Int)) :
    (log.flatMap c.seen).filter Event.isGuard = ((log.filter Behaviour.Event.isGuard).flatMap c.seen).filter Event.isGuard := by
  induction log with
  | nil => rfl
  | cons e log ih =>
    rw [List.flatMap_cons, List.filter_append, ih]
    cases e with
    | before | after => rw [List.filter_cons_of_pos rfl, List.flatMap_cons, List.filter_append]
    | began | ended => rfl
    | called place label values =>
      cases hplace : c.at? place <;> simp [Behaviour.Event.isGuard, Call.seen, hplace, Event.isGuard]

theorem brackets_of_balanced (c : Call) {log : List (Behaviour.Event Int)} (h : Balanced log) :
    Brackets ((log.flatMap c.seen).filter Event.isGuard) := by
  induction h with
  | nil => exact .nil
  | @pair place guard inside rest _ _ hinside hrest =>
    cases hplace : c.at? place with
    | none => simpa [Call.seen, hplace] using hinside.append hrest
    | some d =>
      -- Only a guard that acts after its call as well is seen as a pair.
      cases hwrapper : d.wrapper with
      | bare | before =>
        simpa [Call.seen, hplace, hwrapper, Wrapper.made, Wrapper.dropped, Event.isGuard] using hinside.append hrest
      | around =>
        simpa [Call.seen, hplace, hwrapper, Wrapper.made, Wrapper.dropped, Event.isGuard, List.filter_cons] using
          Brackets.pair d.name hinside hrest

/-- In the evaluation of a nested call every guard that is made is dropped, the one made last first, also when a call
    fails. -/
theorem eval_brackets (c : Call) : Brackets (c.eval.1.filter Event.isGuard) := by
  obtain ⟨n, log, hrun, hseen⟩ := eval_language c
  rw [← filter_happened, ← hseen, filter_seen]
  exact brackets_of_balanced c (balanced_eval c.language hrun)

end CallProbe.Guard
