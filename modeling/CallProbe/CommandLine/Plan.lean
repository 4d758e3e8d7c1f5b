import CallProbe.CommandLine.Command
import CallProbe.Probe.Plan

/-! # Plans from arguments

The options on the command line mean what the options of a marker mean. -/

namespace CallProbe.CommandLine

open Source Probe Time

/-- The path that a text is. -/
def wrapperPath (text : String) : Except PlanFault Tree :=
  match (tokenize text).map Grammar.parsePath with
  | some (.ok p) => .ok p
  | _ => .error (.notPath text)

/-- Whether options for calls were given. -/
def CallArgs.hasOptions (a : CallArgs) : Bool := a.ignorePrelude || !a.blacklist.isEmpty || !a.whitelist.isEmpty

/-- The options for calls that are wrapped by a path. -/
def CallArgs.callOptions (a : CallArgs) (wrapper : Tree) : Except PlanFault CallOptions := do
  return { wrapper, ignorePrelude := a.ignorePrelude, filter := ← filterOfLists a.blacklist a.whitelist }

/-- The plan for functions that are selected, if there is one. -/
def CallArgs.plan (a : CallArgs) : Except PlanFault (Option Plan) :=
  match a.wrapper, a.timeLimit with
  | some w, _ => do return some (.wrapCalls (← a.callOptions (← wrapperPath w)))
  | none, some secs => do
    let calls ← a.callOptions (ProfileOptions.ofLimit .zero).calls.wrapper
    let limit ← (limitOfSeconds secs).mapError .badLimit
    return some (.profile { ProfileOptions.ofLimit limit with calls })
  | none, none => if a.hasOptions then .error (.needsPlan "call options need") else .ok none

end CallProbe.CommandLine
