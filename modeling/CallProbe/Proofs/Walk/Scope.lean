import CallProbe.Proofs.Walk.Macros
import CallProbe.Proofs.Walk.Nodes
import CallProbe.Proofs.Walk.Visits

/-! # The shallow scope

The calls that run as part of a function itself, read off its body in the order of the source: those in nested
items, types, generic arguments, constant blocks and the length of a repeated array are left out, and of a call
that an earlier probe has put there only the code of the function counts. Of macros those of the standard library count
that are given expressions. A walk asks about these calls and no others, once each, whatever the strategy answers.
Attributes and constants in patterns are left aside: a walk does enter them. -/

namespace CallProbe.Call

open Source

/-! ### Calls in scope -/

/-- The kinds of nodes whose calls are not in scope: types and generic arguments, items, constants, and
    attributes. -/
def isOutside (k : Kind) : Bool :=
  [Kind.arrayType, .fnType, .implType, .inferType, .macroType, .neverType, .parenType, .pathType, .pointerType,
    .referenceType, .sliceType, .traitObjectType, .tupleType].contains k ||
  [Kind.angleArgs, .parenArgs].contains k ||
  k == .itemStmt ||
  [Kind.constExpr, .constPat].contains k ||
  k == .attrs

mutual

/-- The calls in scope, in the order of the source. A call that is awaited counts once, together with its
    `await`. -/
def shallowCalls : Tree → Calls
  | .node .repeatExpr [_, .group _ _ (elem :: _) _] => shallowCalls elem
  | .node .forExpr [_, _, _, pat, _, iterated, .node .block [.group _ _ [_, stmts] _]] =>
    (shallowCalls pat).append ((shallowCalls iterated).append (shallowCalls stmts))
  | .node .whileExpr [_, _, _, cond, .node .block [.group _ _ [_, stmts] _]] =>
    (shallowCalls cond).append (shallowCalls stmts)
  | .node .matchExpr [_, _, value, .group _ _ [_, arms] _] => (shallowCalls value).append (shallowCalls arms)
  | .node k cs =>
    if isOutside k then .nil
    else match generatedCall? (.node k cs) with
      | some name =>
        if !holdsBody name then .nil else if k = .awaitExpr then awaitedBodyCalls cs else bodyCalls cs
      | none =>
        if (callOf? (.node k cs)).isSome then
          .cons (.node k cs) (if k = .awaitExpr then awaitedCalls cs else callsOfAll cs) .nil
        else callsOfAll cs
  | .group _ _ content _ => callsOfAll content
  | .arguments _ read => callsOfAll read
  | _ => .nil

def callsOfAll : List Tree → Calls
  | [] => .nil
  | t :: ts => (shallowCalls t).append (callsOfAll ts)

def awaitedCalls : List Tree → Calls
  | _ :: .node _ cs :: _ => callsOfAll cs
  | _ => .nil

def awaitedBodyCalls : List Tree → Calls
  | _ :: .node _ cs :: _ => bodyCalls cs
  | _ => .nil

/-- The calls in the code that a call of the runtime holds, which is its last argument. -/
def bodyCalls : List Tree → Calls
  | [_, _, .group _ _ [.node .list args] _] => lastArgCalls args
  | _ => .nil

def lastArgCalls : List Tree → Calls
  | [] => .nil
  | [t] => shallowCalls t
  | [t, _] => shallowCalls t
  | _ :: _ :: rest => lastArgCalls rest

end

theorem callsOfAll_eq (ts : List Tree) : callsOfAll ts = Calls.joined (ts.map shallowCalls) := by
  induction ts with
  | nil => rw [callsOfAll]; rfl
  | cons t ts ih => rw [callsOfAll, ih]; rfl

theorem lastArgCalls_eq (ts : List Tree) : lastArgCalls ts = Calls.joined ((lastArg ts).map shallowCalls) := by
  fun_induction lastArg ts with
  | case1 => rw [lastArgCalls]; rfl
  | case2 t => simp [lastArgCalls]
  | case3 t sep => simp [lastArgCalls]
  | case4 t sep rest h ih => rw [lastArgCalls, ih]; exact h

theorem bodyCalls_eq (cs : List Tree) : bodyCalls cs = Calls.joined ((lastArgOf cs).map shallowCalls) := by
  fun_cases lastArgOf cs with
  | case1 => rw [bodyCalls, lastArgCalls_eq]
  | case2 => simp [bodyCalls]

theorem awaitedCalls_eq (cs : List Tree) : awaitedCalls cs = Calls.joined ((awaitedParts cs).map shallowCalls) := by
  fun_cases awaitedParts cs with
  | case1 => rw [awaitedCalls, callsOfAll_eq]
  | case2 => simp [awaitedCalls]

theorem awaitedBodyCalls_eq (cs : List Tree) :
    awaitedBodyCalls cs = Calls.joined ((awaitedLastArg cs).map shallowCalls) := by
  fun_cases awaitedLastArg cs with
  | case1 => rw [awaitedBodyCalls, bodyCalls_eq]
  | case2 => simp [awaitedBodyCalls]

/-- The calls in the arguments of a macro are in scope if it is one of the standard library that takes expressions and is
    given expressions, and else none is. -/
theorem shallowCalls_macroArguments {reach : Reach} {path t : Tree} {ts rest : List TokenTree}
    (h : Parse.macroArguments reach path ts = .ok (t, rest)) : ∃ d o content c, ts = .group d o content c :: rest ∧
      ((NamesStandardMacro path ∧ ∃ args, Parse.commas (reach (.expr true)) content = .ok (args, []) ∧
          shallowCalls t = callsOfAll args.children) ∨
        (NamesStandardMacro path → ∀ args, Parse.commas (reach (.expr true)) content ≠ .ok (args, [])) ∧
          shallowCalls t = .nil) := by
  obtain ⟨d, o, content, c, args, rfl, rfl, hread⟩ := Parse.macroArguments_read h
  refine ⟨d, o, content, c, rfl, ?_⟩
  cases hread with
  | expressions hpath hread => exact .inl ⟨hpath, _, hread, by simp [shallowCalls, callsOfAll_eq]⟩
  | tokens hother => exact .inr ⟨hother, by simp [shallowCalls, callsOfAll_eq]⟩

/-! ### Plain trees -/

def holdsNoCall : Tree → Bool := everyNode fun t => (callOf? t).isNone

mutual

/-- Whether no call stands in an attribute or in a constant of a pattern. -/
def isPlain : Tree → Bool
  | .node .repeatExpr [_, .group _ _ (elem :: _) _] => isPlain elem
  | .node .forExpr [attrs, _, _, pat, _, iterated, .node .block [.group _ _ [inner, stmts] _]] =>
    holdsNoCall attrs && holdsNoCall inner && isPlain pat && isPlain iterated && isPlain stmts
  | .node .whileExpr [attrs, _, _, cond, .node .block [.group _ _ [inner, stmts] _]] =>
    holdsNoCall attrs && holdsNoCall inner && isPlain cond && isPlain stmts
  | .node .matchExpr [attrs, _, value, .group _ _ [inner, arms] _] =>
    holdsNoCall attrs && holdsNoCall inner && isPlain value && isPlain arms
  | .node .attrs as => holdsNoCall (.node .attrs as)
  | .node .constPat cs => holdsNoCall (.node .constPat cs)
  | .node k cs => isOutside k || arePlain cs
  | .group _ _ content _ => arePlain content
  | .arguments _ read => arePlain read
  | _ => true

def arePlain : List Tree → Bool
  | [] => true
  | t :: ts => isPlain t && arePlain ts

end

theorem arePlain_iff {ts : List Tree} : arePlain ts = true ↔ ∀ t ∈ ts, isPlain t = true := by
  induction ts with
  | nil => simp [arePlain]
  | cons t ts ih => simp [arePlain, ih]

theorem isAsked_of_kind {k : Kind} {cs : List Tree} (hk : isCallKind k = false) : isAsked (.node k cs) = false := by
  simp [isAsked, callOf?_of_kind hk]

theorem Calls.joined_append_of_nil {css : List Calls} (h : ∀ cs ∈ css, cs = .nil) (ds : List Calls) :
    Calls.joined (css ++ ds) = Calls.joined ds := by
  induction css with
  | nil => rfl
  | cons cs css ih =>
    rw [List.cons_append, joined_cons, h cs (by simp), ih fun ds hds => h ds (by simp [hds])]
    rfl

theorem Calls.joined_of_nil {css : List Calls} (h : ∀ cs ∈ css, cs = .nil) : Calls.joined css = .nil := by
  rw [← List.append_nil css, joined_append_of_nil h]
  rfl

theorem visits_of_holdsNoCall {t : Tree} (h : holdsNoCall t = true) : visits t = .nil := by
  induction t using parts_induction with
  | step t ih =>
    have hparts : Calls.joined ((parts t).map visits) = .nil := by
      apply Calls.joined_of_nil
      intro cs hcs
      obtain ⟨p, hp, rfl⟩ := List.mem_map.mp hcs
      exact ih p hp (everyNode_parts h hp)
    have ha : isAsked t = false := by
      cases t with
      | node k cs =>
        simp only [holdsNoCall, everyNode, Bool.and_eq_true, Option.isNone_iff_eq_none] at h
        simp [isAsked, h.1]
      | _ => rfl
    rw [visits_eq, ha, hparts]
    rfl

theorem isPlain_of_callKind {k : Kind} {cs : List Tree} (hk : isCallKind k = true) :
    isPlain (.node k cs) = arePlain cs := by
  simp only [isCallKind, List.contains_iff_mem, List.mem_cons, List.not_mem_nil, or_false] at hk
  rcases hk with rfl | rfl | rfl <;> rfl

theorem isCallKind_of_awaited {attrs : Tree} {k : Kind} {cs rest : List Tree}
    (h : (callOf? (.node .awaitExpr (attrs :: .node k cs :: rest))).isSome = true) : isCallKind k = true := by
  cases hk : isCallKind k with
  | true => rfl
  | false =>
    unfold callOf? Target.ofCall? at h
    split at h
    · rename_i he
      cases he
      split at h
      · rename_i he
        cases he
        cases hk
      · rename_i he
        cases he
        cases hk
      · cases h
    · simp at h

theorem isPlain_lastArgOf {cs : List Tree} {p : Tree} (h : arePlain cs = true) (hp : p ∈ lastArgOf cs) :
    isPlain p = true := by
  fun_cases lastArgOf cs with
  | case1 attrs callee d o args c =>
    simp [arePlain, isPlain, isOutside, arePlain_iff] at h
    exact h.2.2 p (mem_of_mem_lastArg hp)
  | case2 => simp [lastArgOf] at hp

/-- The visited parts of a node with plain children are plain. -/
theorem isPlain_parts_node {k : Kind} {cs : List Tree} {p : Tree} (hn : hasOwnOrder (.node k cs) = false)
    (h : arePlain cs = true) (hp : p ∈ parts (.node k cs)) : isPlain p = true := by
  obtain ⟨t', hform⟩ := exists_exchange (.node k cs)
  generalize parts (.node k cs) = ps at hp hform
  cases hform with
  | repeated | forLoop | whileLoop | matched => cases hn
  | closed | hidden => cases hp
  | body => exact isPlain_lastArgOf h hp
  | @awaitedBody call =>
    have hcall := arePlain_iff.mp h (.node .callExpr call) (by simp)
    exact isPlain_lastArgOf (by rwa [isPlain_of_callKind rfl] at hcall) hp
  | @awaited attrs dot await l _ hg hc =>
    have hcall := arePlain_iff.mp h (.node l ps) (by simp)
    rw [isPlain_of_callKind (isCallKind_of_awaited hc), arePlain_iff] at hcall
    exact hcall p hp
  | children => exact arePlain_iff.mp h p hp

theorem isOutside_eq (k : Kind) : isOutside k = (isClosed k || k == .attrs || k == .constPat) := by
  cases k <;> rfl

/-- A walk over a node that is no loop, no `match` and no repeated array visits what the scope of the node says. -/
theorem calls_childrenVisited {k : Kind} {cs : List Tree} (hk : isOutside k = false) :
    (if isAsked (.node k cs) then .cons (.node k cs) (Calls.joined ((childrenVisited k cs).map shallowCalls)) .nil
      else Calls.joined ((childrenVisited k cs).map shallowCalls)) =
    match generatedCall? (.node k cs) with
    | some name => if !holdsBody name then .nil else if k = .awaitExpr then awaitedBodyCalls cs else bodyCalls cs
    | none =>
      if (callOf? (.node k cs)).isSome then
        .cons (.node k cs) (if k = .awaitExpr then awaitedCalls cs else callsOfAll cs) .nil
      else callsOfAll cs := by
  have hc : isClosed k = false := by
    rw [isOutside_eq] at hk
    simp only [Bool.or_eq_false_iff] at hk
    exact hk.1.1
  simp only [childrenVisited, isAsked, hc]
  cases hg : generatedCall? (.node k cs) with
  | some name =>
    by_cases hb : holdsBody name
    · by_cases ha : k = .awaitExpr <;> simp [hb, ha, awaitedBodyCalls_eq, bodyCalls_eq]
    · simp [hb]
  | none =>
    by_cases hs : (callOf? (.node k cs)).isSome
    · by_cases ha : k = .awaitExpr
      · subst ha
        simp [hs, awaitedCalls_eq]
      · simp [hs, ha, callsOfAll_eq]
    · simp [hs, callsOfAll_eq]

theorem shallowCalls_node {k : Kind} {cs : List Tree} (h : hasOwnOrder (.node k cs) = false) :
    shallowCalls (.node k cs) =
      if isOutside k then .nil
      else match generatedCall? (.node k cs) with
        | some name => if !holdsBody name then .nil else if k = .awaitExpr then awaitedBodyCalls cs else bodyCalls cs
        | none =>
          if (callOf? (.node k cs)).isSome then
            .cons (.node k cs) (if k = .awaitExpr then awaitedCalls cs else callsOfAll cs) .nil
          else callsOfAll cs := by
  rw [shallowCalls]
  all_goals
    intros
    subst_vars
    cases h

theorem isPlain_node {k : Kind} {cs : List Tree} (h : hasOwnOrder (.node k cs) = false) (ha : k ≠ .attrs)
    (hp : k ≠ .constPat) : isPlain (.node k cs) = (isOutside k || arePlain cs) := by
  rw [isPlain]
  all_goals
    intros
    subst_vars
    contradiction

/-! ### Parts in scope -/

/-- Whether a tree is out of scope and entered all the same. -/
def isEntered (t : Tree) : Bool := t.kind? == some .attrs || t.kind? == some .constPat

/-- The visited parts of a tree that are out of scope. -/
def strayParts : Tree → List Tree
  | .node .repeatExpr [_, .group _ _ (_ :: _) _] => []
  | .node .forExpr [attrs, _, _, _, _, _, .node .block [.group _ _ [inner, _] _]] => [attrs, inner]
  | .node .whileExpr [attrs, _, _, _, .node .block [.group _ _ [inner, _] _]] => [attrs, inner]
  | .node .matchExpr [attrs, _, _, .group _ _ [inner, _] _] => [attrs, inner]
  | t => if isEntered t then parts t else []

/-- The visited parts of a tree that are in scope. -/
def scopeParts : Tree → List Tree
  | .node .repeatExpr [_, .group _ _ (elem :: _) _] => [elem]
  | .node .forExpr [_, _, _, pat, _, iterated, .node .block [.group _ _ [_, stmts] _]] => [pat, iterated, stmts]
  | .node .whileExpr [_, _, _, cond, .node .block [.group _ _ [_, stmts] _]] => [cond, stmts]
  | .node .matchExpr [_, _, value, .group _ _ [_, arms] _] => [value, arms]
  | t => if isEntered t then [] else parts t

theorem strayParts_node {k : Kind} {cs : List Tree} (h : hasOwnOrder (.node k cs) = false) :
    strayParts (.node k cs) = if isEntered (.node k cs) then parts (.node k cs) else [] := by
  rw [strayParts]
  all_goals
    intros
    rename_i he
    rw [he] at h
    cases h

theorem scopeParts_node {k : Kind} {cs : List Tree} (h : hasOwnOrder (.node k cs) = false) :
    scopeParts (.node k cs) = if isEntered (.node k cs) then [] else parts (.node k cs) := by
  rw [scopeParts]
  all_goals
    intros
    rename_i he
    rw [he] at h
    cases h

theorem parts_eq (t : Tree) : parts t = strayParts t ++ scopeParts t := by
  cases t using visitCases with
  | node k cs hn =>
    rw [strayParts_node hn, scopeParts_node hn]
    cases isEntered (.node k cs) <;> simp
  | _ => rfl

theorem isEntered_eq (k : Kind) (cs : List Tree) : isEntered (.node k cs) = (k == .attrs || k == .constPat) := rfl

/-- The calls in scope are those of the parts in scope, and the tree itself if it is asked about. -/
theorem shallowCalls_eq (t : Tree) : shallowCalls t =
    if isAsked t then .cons t (Calls.joined ((scopeParts t).map shallowCalls)) .nil
    else Calls.joined ((scopeParts t).map shallowCalls) := by
  cases t using visitCases with
  | repeated => simp [isAsked_of_kind (k := .repeatExpr) rfl, scopeParts, shallowCalls]
  | forLoop => simp [isAsked_of_kind (k := .forExpr) rfl, scopeParts, shallowCalls]
  | whileLoop => simp [isAsked_of_kind (k := .whileExpr) rfl, scopeParts, shallowCalls]
  | matched => simp [isAsked_of_kind (k := .matchExpr) rfl, scopeParts, shallowCalls]
  | node k cs hn =>
    rw [shallowCalls_node hn, scopeParts_node hn, isEntered_eq, parts_node hn]
    cases ho : isOutside k with
    | true =>
      have hcall : isCallKind k = false := by cases k <;> first | rfl | cases ho
      rw [isAsked_of_kind hcall]
      rw [isOutside_eq, Bool.or_assoc] at ho
      cases hentered : (k == .attrs || k == .constPat) with
      | true => rfl
      | false =>
        rw [hentered, Bool.or_false] at ho
        simp [childrenVisited, ho]
    | false =>
      have hentered : (k == .attrs || k == .constPat) = false := by
        rw [isOutside_eq, Bool.or_assoc] at ho
        exact (Bool.or_eq_false_iff.mp ho).2
      rw [hentered]
      exact (calls_childrenVisited ho).symm
  | group d o content c =>
    rw [shallowCalls, callsOfAll_eq]
    rfl
  | arguments written read =>
    rw [shallowCalls, callsOfAll_eq]
    rfl
  | leaf l => simp [shallowCalls, scopeParts, isEntered, parts, isAsked, callOf?, Target.ofCall?]
  | tokens ts => simp [shallowCalls, scopeParts, isEntered, parts, isAsked, callOf?, Target.ofCall?]

theorem shallowCalls_list (t : Tree) : (shallowCalls t).list = (if isAsked t then [t] else []) ++
    (scopeParts t).flatMap fun p => (shallowCalls p).list := by
  rw [shallowCalls_eq]
  cases isAsked t with
  | true => simp [Calls.list, Calls.joined_list, List.flatMap_map]
  | false => simp [Calls.joined_list, List.flatMap_map]

/-! ### Visits -/

/-- In a plain tree the parts out of scope hold no call, and those in scope are plain. -/
theorem isPlain_parts {t : Tree} (h : isPlain t = true) :
    (∀ p ∈ strayParts t, holdsNoCall p = true) ∧ ∀ p ∈ scopeParts t, isPlain p = true := by
  cases t using visitCases with
  | repeated attrs d o elem rest c => exact ⟨List.forall_mem_nil _, List.forall_mem_singleton.mpr h⟩
  | forLoop | whileLoop | matched =>
    simp only [isPlain, Bool.and_eq_true] at h
    simp [strayParts, scopeParts, h]
  | node k cs hn =>
    rw [strayParts_node hn, scopeParts_node hn]
    cases hentered : isEntered (.node k cs) with
    | true =>
      have hnone : holdsNoCall (.node k cs) = true := by
        obtain rfl | rfl : k = .attrs ∨ k = .constPat := by simpa [isEntered_eq] using hentered
        · exact h
        · exact h
      exact ⟨fun p hp => everyNode_parts hnone hp, List.forall_mem_nil _⟩
    | false =>
      obtain ⟨ha, hc⟩ : k ≠ .attrs ∧ k ≠ .constPat := by simpa [isEntered_eq] using hentered
      refine ⟨List.forall_mem_nil _, fun p hp => ?_⟩
      rw [if_neg Bool.false_ne_true] at hp
      rw [isPlain_node hn ha hc] at h
      cases ho : isOutside k with
      | true =>
        have hclosed : isClosed k = true := by simpa [isOutside_eq, ha, hc] using ho
        rw [(Exchange.closed cs hclosed).parts_eq] at hp
        cases hp
      | false =>
        rw [ho, Bool.false_or] at h
        exact isPlain_parts_node hn h hp
  | group d o content c => exact ⟨List.forall_mem_nil _, arePlain_iff.mp h⟩
  | arguments written read => exact ⟨List.forall_mem_nil _, arePlain_iff.mp h⟩
  | leaf | tokens => exact ⟨List.forall_mem_nil _, List.forall_mem_nil _⟩

/-- A walk asks about the calls in scope. -/
theorem visits_eq_shallowCalls {t : Tree} (h : isPlain t = true) : visits t = shallowCalls t := by
  induction t using parts_induction with
  | step t ih =>
    -- Of the parts that a walk comes to, those out of scope hold no call, and those in scope are plain again.
    obtain ⟨hnone, hplain⟩ := isPlain_parts h
    have hstray : ∀ cs ∈ (strayParts t).map visits, cs = .nil :=
      List.forall_mem_map.mpr fun p hp => visits_of_holdsNoCall (hnone p hp)
    have hscope : ∀ p ∈ scopeParts t, visits p = shallowCalls p := by
      refine fun p hp => ih p ?_ (hplain p hp)
      rw [parts_eq]
      exact List.mem_append_right _ hp
    rw [visits_eq, shallowCalls_eq, parts_eq, List.map_append, Calls.joined_append_of_nil hstray, List.map_congr_left hscope]

/-! ### What a walk asks -/

section
variable {σ : Type} (strategy : Strategy σ) (function : String)

/-- The log of a walk over a block. -/
def Strategy.log (block : Tree) (s : σ) : List Event := (walkCalls strategy.logged function block (s, [])).2.2

theorem Strategy.log_spec (block : Tree) (s : σ) :
    Handles function (visits block) (strategy.log function block s) ∧
    walkCalls strategy.logged function block (s, []) =
      ((walkCalls strategy function block s).1, (walkCalls strategy function block s).2, strategy.log function block s) ∧
    (walkCalls strategy function block s).1.2 = (sitesAccepted (strategy.log function block s)).length := by
  obtain ⟨events, hevents, hrun, hcount⟩ := walk_logged strategy function block 0 s []
  have hlog : strategy.log function block s = events := by
    rw [Strategy.log, walkCalls, StateT.run, hrun]
    rfl
  rw [hlog]
  refine ⟨hevents, hrun, ?_⟩
  rw [Nat.zero_add] at hcount
  exact hcount

end

theorem block_of_test {text : String} {test : Tree → Bool}
    (h : ((tokenize text).bind fun ts => (Grammar.parseBlock ts).toOption).any test = true) :
    ∃ block, (tokenize text).map Grammar.parseBlock = some (.ok block) ∧ test block = true := by
  cases htokens : tokenize text with
  | none =>
    rw [htokens] at h
    cases h
  | some ts =>
    cases hblock : Grammar.parseBlock ts with
    | error e => simp [htokens, hblock, Except.toOption] at h
    | ok block => exact ⟨block, by rw [Option.map_some, hblock], by simpa [htokens, hblock, Except.toOption] using h⟩

end CallProbe.Call
