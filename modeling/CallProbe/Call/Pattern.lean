import CallProbe.Call.Target

/-! # Patterns for names of calls

A pattern is written like a name. `a[*]` stands for every subscript of `a`, `a[b]` for the one with the
string key `b`, and `_` alone for what has no name. -/

namespace CallProbe.Call

open Text

/-- Why a text is no pattern. -/
inductive PatternFault where
  | empty
  | noName
  | noNameAfterColons
  | noNameAfterDot
  | unclosed
  | emptyKey
  | noSuffix
deriving DecidableEq, Repr

/-- The reason in words. -/
def PatternFault.reason : PatternFault → String
  | empty => "pattern is empty"
  | noName => "expected a name"
  | noNameAfterColons => "expected a name after `::`"
  | noNameAfterDot => "expected a name after `.`"
  | unclosed => "unclosed `[`"
  | emptyKey => "empty subscript"
  | noSuffix => "expected `.`, `[` or `()`"

/-- A text that is no pattern, and why. -/
structure PatternError where
  text : String
  fault : PatternFault
deriving DecidableEq, Repr

/-- The error in words. -/
def PatternError.message (e : PatternError) : String :=
  "invalid call name pattern `" ++ e.text ++ "`: " ++ e.fault.reason

/-- A pattern and the text it was written as, without blanks around it. -/
structure Pattern where
  text : String
  target : Target
deriving DecidableEq, Repr, Inhabited

/-- Whether a pattern, given as a target, stands for a target: the same shape with the same names, where a
    key of the pattern that is `any` stands for every key. -/
def Target.covers : Target → Target → Bool
  | path p, path n => p == n
  | member pb p, member nb n => p == n && pb.covers nb
  | index pb p, index nb n => (p == .any || p == n) && pb.covers nb
  | result p, result n => p.covers n
  | unnamed, unnamed => true
  | _, _ => false

namespace Pattern

/-- A character of a name. -/
def isNameChar (c : Char) : Bool := isAlphanumeric c || c == '_'

/-- The name at the start of a text, and the rest. -/
def takeName (cs : List Char) : Option (String × List Char) :=
  match cs.takeWhile isNameChar with
  | [] => none
  | name => some (String.ofList name, cs.dropWhile isNameChar)

theorem length_dropWhile_le {α : Type} (p : α → Bool) (l : List α) : (l.dropWhile p).length ≤ l.length := by
  induction l with
  | nil => simp
  | cons a l ih =>
    by_cases h : p a
    · simp [h]; omega
    · simp [h]

theorem takeName_length {cs rest : List Char} {name : String} (h : takeName cs = some (name, rest)) :
    rest.length ≤ cs.length := by
  unfold takeName at h
  split at h
  · simp at h
  · simp only [Option.some.injEq, Prod.mk.injEq] at h
    rw [← h.2]
    exact length_dropWhile_le _ _

/-- The further segments of a path. -/
def takeSegments : List Char → Except PatternFault (List String × List Char)
  | ':' :: ':' :: cs =>
    match h : takeName cs with
    | none => .error .noNameAfterColons
    | some (name, rest) =>
      have : rest.length ≤ cs.length := takeName_length h
      (takeSegments rest).map fun (names, rest) => (name :: names, rest)
  | cs => .ok ([], cs)
termination_by cs => cs.length
decreasing_by simp only [List.length_cons]; omega

/-- A key without the quotes around it. -/
def unquote (cs : List Char) : List Char :=
  match cs with
  | '"' :: rest => if 0 < rest.length ∧ rest.getLast? = some '"' then rest.dropLast else cs
  | _ => cs

/-- The key that stands between brackets. -/
def keyOf? (raw : List Char) : Option Key :=
  match trimBlanks raw with
  | [] => none
  | ['*'] => some .any
  | cs => some (.literal (String.ofList (unquote cs)))

/-- The fields, subscripts and calls after a path. -/
def takeSuffixes (target : Target) : List Char → Except PatternFault Target
  | [] => .ok target
  | '.' :: cs =>
    match h : takeName cs with
    | none => .error .noNameAfterDot
    | some (name, rest) =>
      have : rest.length ≤ cs.length := takeName_length h
      takeSuffixes (.member target name) rest
  | '[' :: cs =>
    match h : cs.dropWhile (· != ']') with
    | [] => .error .unclosed
    | _ :: rest =>
      have : rest.length < cs.length := by
        have := length_dropWhile_le (· != ']') cs
        rw [h, List.length_cons] at this
        omega
      match keyOf? (cs.takeWhile (· != ']')) with
      | none => .error .emptyKey
      | some key => takeSuffixes (.index target key) rest
  | '(' :: ')' :: cs => takeSuffixes (.result target) cs
  | _ => .error .noSuffix
termination_by cs => cs.length
decreasing_by all_goals (simp only [List.length_cons]; omega)

/-- The target that a path stands for: a lone `_` has no name. -/
def ofSegments (segments : List String) : Target :=
  if segments = ["_"] then .unnamed else .path segments

/-- Reads a pattern from which surrounding blanks have been removed. -/
def read (cs : List Char) : Except PatternFault Target :=
  if cs.isEmpty then .error .empty
  else match takeName cs with
    | none => .error .noName
    | some (name, rest) => do
      let (names, rest) ← takeSegments rest
      takeSuffixes (ofSegments (name :: names)) rest

/-- Reads a pattern. -/
def parse (s : String) : Except PatternError Pattern :=
  match read (trimBlanks s.toList) with
  | .ok target => .ok ⟨trim s, target⟩
  | .error fault => .error ⟨s, fault⟩

/-- Whether a pattern stands for what is called. -/
def isMatch (p : Pattern) (t : Target) : Bool := p.target.covers t

end Pattern

/-- Which calls may be touched. -/
inductive Filter where
  | all
  /-- All but those that a pattern stands for. -/
  | blacklist (patterns : List Pattern)
  /-- Only those that a pattern stands for. -/
  | whitelist (patterns : List Pattern)
deriving DecidableEq, Repr, Inhabited

/-- Whether a filter lets a call through. -/
def Filter.allows : Filter → Target → Bool
  | all, _ => true
  | blacklist ps, t => !ps.any (·.isMatch t)
  | whitelist ps, t => ps.any (·.isMatch t)

end CallProbe.Call
