/-! # Guarded calls

A probed call makes its guard first, then evaluates the call, and then drops the guard, which is where the
action after the call happens. A call that fails drops the guards of all calls around it on the way out, the
innermost first. -/

namespace CallProbe.Guard

/-- What is put around a call: nothing, an action before it, or an action before and after it. -/
inductive Wrapper where
  | bare
  | before
  | around
deriving DecidableEq, Repr

/-- A call. Its arguments are calls, and its value is its own one added to theirs, unless it fails. -/
inductive Call where
  | mk (name : String) (args : List Call) (wrapper : Wrapper) (fails : Bool) (value : Int)
deriving Repr

/-- What happens during an evaluation. -/
inductive Event where
  | record (name : String)
  | before (name : String)
  | call (name : String)
  | after (name : String)
  | returned (name : String) (value : Int)
deriving DecidableEq, Repr

def Event.text : Event → String
  | record n => "record " ++ n
  | before n => "before " ++ n
  | call n => "call " ++ n
  | after n => "after " ++ n
  | returned n v => "returned " ++ n ++ " " ++ toString v

/-- The name of the call that failed, or a value. -/
abbrev Outcome := Except String Int

/-- What happens under a guard: it is made first, and dropped after all else, whatever came of that. -/
def guarded {α : Type} (made dropped : α) (log : List α) : List α := made :: log ++ [dropped]

/-- Puts a wrapper around an evaluation. What a guard does when it is dropped happens also after a failure. -/
def Wrapper.wrap (w : Wrapper) (name : String) (body : List Event × Outcome) : List Event × Outcome :=
  match w with
  | bare => body
  | before => (.record name :: body.1, body.2)
  | around => (guarded (.before name) (.after name) body.1, body.2)

mutual

/-- Evaluates a call: its guard, its arguments from left to right, the call itself. -/
def Call.eval : Call → List Event × Outcome
  | .mk name args wrapper fails value =>
    let (log, sum) := evalArgs args
    let body : List Event × Outcome := match sum with
      | .error e => (log, .error e)
      | .ok total => (log ++ [.call name], if fails then .error name else .ok (value + total))
    let (log, outcome) := wrapper.wrap name body
    match outcome with
    | .ok v => (log ++ [.returned name v], .ok v)
    | .error e => (log, .error e)

/-- Evaluates arguments and adds their values; the first failure ends it. -/
def evalArgs : List Call → List Event × Outcome
  | [] => ([], .ok 0)
  | a :: rest =>
    match a.eval with
    | (log, .error e) => (log, .error e)
    | (log, .ok v) =>
      let (more, sum) := evalArgs rest
      (log ++ more, sum.map (v + ·))

end

/-- What is said about a failed call. -/
def failureText (name : String) : String := name ++ " failed"

end CallProbe.Guard
