import CallProbe.Call.Pattern
import CallProbe.Probe.Marker
import CallProbe.Source.Grammar
import CallProbe.Source.Make
import CallProbe.Time.Seconds

/-! # Plans

What a marker asks for: its options, each given at most once, checked when they are read. -/

namespace CallProbe.Probe

open Source Call Time

/-- Options of every probe that wraps calls. -/
structure CallOptions where
  /-- The function that is called before each call and whose result is dropped after it. -/
  wrapper : Tree
  /-- Whether calls of the prelude are left alone. -/
  ignorePrelude : Bool := false
  filter : Filter := .all
  /-- The name of a constant with the sources before and after. -/
  details : Option String := none

/-- Options of a profile. -/
structure ProfileOptions where
  calls : CallOptions
  timeLimit : Duration
  /-- Who is told about an invocation within the limit, and about one beyond it. -/
  below : Option Tree
  above : Option Tree

/-- A probe that is asked for. -/
inductive Plan where
  | wrapCalls (options : CallOptions)
  | profile (options : ProfileOptions)

/-- The options for the wrapped calls. -/
def Plan.calls : Plan → CallOptions
  | wrapCalls options => options
  | profile options => options.calls

/-- The options of a profile of which only the limit is given. -/
def ProfileOptions.ofLimit (limit : Duration) : ProfileOptions where
  calls := { wrapper := Make.path true ["shallow_runtime", "profile", "time"] }
  timeLimit := limit
  below := some (Make.path true ["shallow_runtime", "profile", "log_below"])
  above := some (Make.path true ["shallow_runtime", "profile", "log_above"])

/-! ### Errors -/

/-- What is wrong with the options of a marker or of a command. -/
inductive PlanFault where
  | unreadable
  | duplicate
  | unsupported (marker : Marker)
  | missingWrapper
  | missingTimeLimit
  | noCallback
  | bothLists
  | badPattern (error : PatternError)
  | limitNotNumber
  | badLimit (fault : LimitFault)
  | noList (marker : Marker)
  /-- The wrapper of a command is no path. -/
  | notPath (wrapper : String)
  /-- Options of a command were given, but nothing that they could be for. -/
  | needsPlan (options : String)
deriving DecidableEq, Repr

/-- The fault in words. -/
def PlanFault.message : PlanFault → String
  | unreadable => "syntax error"
  | duplicate => "duplicate option"
  | unsupported m => "unsupported `" ++ m.name ++ "` option"
  | missingWrapper => "missing required option `wrapper = path::to::function`"
  | missingTimeLimit => "missing required option `time_limit = <seconds>`"
  | noCallback => "at least one of `below` and `above` must be a callback"
  | bothLists => "`blacklist` and `whitelist` are mutually exclusive"
  | badPattern e => e.message
  | limitNotNumber => "`time_limit` must be a number of seconds"
  | badLimit f => f.message
  | noList m => "expected `#[" ++ m.name ++ "(...)]`"
  | notPath w => "`--wrapper " ++ w ++ "` is not a path"
  | needsPlan options => options ++ " --wrapper or --time-limit"

/-- A fault and where it is. -/
structure PlanError where
  fault : PlanFault
  pos : Pos := Pos.none
deriving DecidableEq, Repr

/-! ### Options -/

/-- An option with its value. -/
inductive Setting where
  | ignorePrelude (value : Bool)
  | blacklist (patterns : List Pattern)
  | whitelist (patterns : List Pattern)
  | details (name : String)
  | wrapper (path : Tree)
  | timeLimit (limit : Duration)
  | below (callback : Option Tree)
  | above (callback : Option Tree)

/-- The options seen so far; the lists with the place of their name. -/
structure Settings where
  ignorePrelude : Option Bool := none
  blacklist : Option (List Pattern) := none
  whitelist : Option (Pos × List Pattern) := none
  details : Option String := none
  wrapper : Option Tree := none
  timeLimit : Option Duration := none
  below : Option (Option Tree) := none
  above : Option (Option Tree) := none

/-- A value for an option that has none yet. -/
def setOnce {α : Type} (pos : Pos) (slot : Option α) (value : α) : Except PlanError (Option α) :=
  match slot with
  | some _ => .error ⟨.duplicate, pos⟩
  | none => .ok (some value)

/-- The options with one more, whose name stands at `pos`. -/
def Settings.set (s : Settings) (pos : Pos) : Setting → Except PlanError Settings
  | .ignorePrelude v => do return { s with ignorePrelude := ← setOnce pos s.ignorePrelude v }
  | .blacklist ps => do return { s with blacklist := ← setOnce pos s.blacklist ps }
  | .whitelist ps => do return { s with whitelist := ← setOnce pos s.whitelist (pos, ps) }
  | .details n => do return { s with details := ← setOnce pos s.details n }
  | .wrapper p => do return { s with wrapper := ← setOnce pos s.wrapper p }
  | .timeLimit d => do return { s with timeLimit := ← setOnce pos s.timeLimit d }
  | .below c => do return { s with below := ← setOnce pos s.below c }
  | .above c => do return { s with above := ← setOnce pos s.above c }

/-! ### Reading options -/

/-- A parser of the options of a marker. -/
abbrev OptionParser (α : Type) := StateT (List TokenTree) (Except PlanError) α

/-- Fails at a place. -/
def failAt {α : Type} (pos : Pos) (fault : PlanFault) : OptionParser α := throw ⟨fault, pos⟩

/-- A parser of the grammar as a parser of options. -/
def grammar {α : Type} (p : Reach → Parser α) : OptionParser α := fun ts =>
  match p Grammar.reach ts with
  | .ok r => .ok r
  | .error _ => .error ⟨.unreadable, Pos.none⟩

/-- The name of an option: words between colons, keywords included, and the place of the first word. -/
def optionName : OptionParser (List String × Bool × Pos) := grammar fun _ => do
  let lead ← Parse.symbol? "::"
  let pos := startOf (← get)
  let first ← Parse.anyWord
  let rest ← Parse.repeatWhile (Ahead.symbol "::") do
    let _ ← Parse.symbol "::"
    Parse.anyWord
  return ((first :: rest).map Tree.text, lead.isPresent, pos)

/-- An equals sign. -/
def equals : OptionParser Unit := grammar fun _ => do let _ ← Parse.symbol "="

/-- A string literal: its value and its place. -/
def stringLiteral : Parser Tree := do
  if Ahead.stringLiteral (← get) then Parse.literal else Parse.refuse

/-- The value of a string literal. -/
def stringValue (t : Tree) : String :=
  match Literal.ofText t.text with
  | some (.str s) => s
  | _ => ""

/-- A list of patterns in brackets. All literals are read before the patterns in them are. -/
def patternList : OptionParser (List Pattern) := do
  equals
  let literals ← grammar fun _ => do
    match ← Parse.group .bracket do return [← Parse.commas stringLiteral] with
    | .group _ _ [list] _ => return list.elements
    | _ => Parse.refuse
  literals.mapM fun t => match Pattern.parse (stringValue t) with
    | .ok p => pure p
    | .error e => failAt (startOf t.toTokens) (.badPattern e)

/-- Whether a path is the given word. -/
def isWord (w : String) : Tree → Bool
  | .node .path [lead, .node .list [.node .segment [n, args]]] =>
    !lead.isPresent && !args.isPresent && n.text == w
  | _ => false

/-- A callback; `none` turns it off. -/
def callback : OptionParser (Option Tree) := do
  equals
  let p ← grammar fun reach => Parse.path reach false
  return if isWord "none" p then none else some p

/-- The decimal text of a number literal, with its sign. -/
def numberText? : Tree → Option String
  | .leaf (.literal t _) => digits t
  | .node .negative [_, .leaf (.literal t _)] => (digits t).map ("-" ++ ·)
  | _ => none
where
  digits (t : String) : Option String := match Literal.ofText t with
    | some (.int d _) | some (.float d _) => some d
    | _ => none

/-- A time limit. -/
def timeLimit : OptionParser Duration := do
  equals
  let l ← grammar fun _ => Parse.literal
  let pos := startOf l.toTokens
  match numberText? l with
  | none => failAt pos .limitNotNumber
  | some text => match (Float64.parse text).map limitOfSeconds with
    | some (.ok d) => return d
    | some (.error f) => failAt pos (.badLimit f)
    | none => failAt Pos.none .unreadable

/-- A truth value, which is `true` if none is given. -/
def flag : OptionParser Bool := do
  if Ahead.symbol "=" (← get) then
    equals
    let w ← grammar fun _ => do
      if Ahead.oneOf ["true", "false"] (← get) then Parse.anyWord else Parse.refuse
    return w.text == "true"
  else return true

/-- The value of the option with the given name. -/
def setting (marker : Marker) (name : List String) (fromRoot : Bool) (pos : Pos) : OptionParser Setting :=
  let unsupported : OptionParser Setting := failAt pos (.unsupported marker)
  if fromRoot then unsupported
  else match name with
    | ["ignore_builtins"] => return .ignorePrelude (← flag)
    | ["blacklist"] => return .blacklist (← patternList)
    | ["whitelist"] => return .whitelist (← patternList)
    | ["rewrite_details"] => do
      equals
      return .details (← grammar fun _ => Parse.name).text
    | [n] =>
      match marker with
      | .wrapCalls =>
        if n = "wrapper" then do
          equals
          return .wrapper (← grammar fun reach => Parse.path reach false)
        else unsupported
      | .profile =>
        if n = "time_limit" then return .timeLimit (← timeLimit)
        else if n = "below" then return .below (← callback)
        else if n = "above" then return .above (← callback)
        else unsupported
    | _ => unsupported

/-- Options between commas; `fuel` bounds their number. -/
def settingsFuel (marker : Marker) : Nat → Settings → OptionParser Settings
  | 0, s => return s
  | fuel + 1, s => do
    let (name, fromRoot, pos) ← optionName
    let s ← s.set pos (← setting marker name fromRoot pos)
    if (← get).isEmpty then return s
    let _ ← grammar fun _ => Parse.symbol ","
    if (← get).isEmpty then return s
    settingsFuel marker fuel s

/-- All options of a marker. -/
def readSettings (marker : Marker) (args : List TokenTree) : Except PlanError Settings :=
  if args.isEmpty then .ok {}
  else (settingsFuel marker args.length {}).run' args

/-! ### Plans from options -/

/-- The options for calls, with the filter that the lists give. -/
def Settings.callOptions (s : Settings) (wrapper : Tree) : Except PlanError CallOptions := do
  let filter ← match s.blacklist, s.whitelist with
    | some _, some (pos, _) => .error ⟨.bothLists, pos⟩
    | some ps, none => .ok (.blacklist ps)
    | none, some (_, ps) => .ok (.whitelist ps)
    | none, none => .ok .all
  return { wrapper, filter, ignorePrelude := s.ignorePrelude.getD false, details := s.details }

/-- The plan that options give. -/
def Settings.plan (s : Settings) : Marker → Except PlanError Plan
  | .wrapCalls =>
    match s.wrapper with
    | none => .error { fault := .missingWrapper }
    | some wrapper => (s.callOptions wrapper).map .wrapCalls
  | .profile =>
    match s.timeLimit with
    | none => .error { fault := .missingTimeLimit }
    | some limit => do
      let dflt := ProfileOptions.ofLimit limit
      let below := s.below.getD dflt.below
      let above := s.above.getD dflt.above
      if below.isNone ∧ above.isNone then .error { fault := .noCallback }
      else return .profile { calls := ← s.callOptions dflt.calls.wrapper, timeLimit := limit, below, above }

/-- Reads the arguments of a marker. -/
def Plan.parse (marker : Marker) (args : List TokenTree) : Except PlanError Plan := do
  (← readSettings marker args).plan marker

/-- Reads the arguments of a marker from its attribute. -/
def Plan.ofAttr (marker : Marker) (attr : Tree) : Except PlanError Plan :=
  match attrMeta attr with
  | .node .metaList [_, .group _ _ [.tokens args] _] => Plan.parse marker args
  | .node .metaNameValue (p :: _) => .error ⟨.noList marker, startOf p.toTokens⟩
  | _ => Plan.parse marker []

/-- The filter of two lists of patterns, of which at most one may be given. -/
def filterOfLists (blacklist whitelist : List String) : Except PlanFault Filter :=
  let read (list : List String) : Except PlanFault (List Pattern) :=
    list.mapM fun s => (Pattern.parse s).mapError .badPattern
  match blacklist, whitelist with
  | [], [] => .ok .all
  | _ :: _, _ :: _ => .error .bothLists
  | bs, [] => (read bs).map .blacklist
  | [], ws => (read ws).map .whitelist

end CallProbe.Probe
