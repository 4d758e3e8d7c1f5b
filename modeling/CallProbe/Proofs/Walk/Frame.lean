import CallProbe.Proofs.Marked.Reading
import CallProbe.Proofs.Walk.Scope
import CallProbe.Proofs.Wrap.Unwrap
import Mathlib.Data.List.Flatten
import Mathlib.Data.List.Perm.Basic

/-! # What a walk leaves alone

Items, types, generic arguments, constant blocks, the length of a repeated array, the tokens of macros that take no list
of expressions and all but the last argument of a call of the runtime stay as they were, whatever a strategy makes of the
calls in scope (`Framed`). Attributes and constants of patterns are out of scope as well, and a walk enters them: the
calls that it finds there (`strays`) are the only ones out of scope that it asks about. -/

namespace CallProbe.Call

open Source
open Probe (asRead asReadAll_eq)

/-! ### Calls out of scope -/

/-- The calls out of scope that a walk asks about: those in attributes and in constants of patterns. -/
def strays (t : Tree) : List Tree :=
  ((strayParts t).flatMap fun p => (visits p).list) ++ (scopeParts t).attach.flatMap fun p => strays p.1
termination_by sizeOf t
decreasing_by exact sizeOf_parts (by rw [parts_eq]; exact List.mem_append_right _ p.2)

theorem strays_eq (t : Tree) :
    strays t = ((strayParts t).flatMap fun p => (visits p).list) ++ (scopeParts t).flatMap strays := by
  rw [strays, List.flatMap_subtype (g := strays) fun _ _ => rfl, List.unattach_attach]

theorem scope_sublist (t : Tree) : (shallowCalls t).list.Sublist (visits t).list := by
  induction t using parts_induction with
  | step t ih =>
    rw [shallowCalls_list, visits_list, parts_eq, List.flatMap_append]
    refine List.Sublist.append_left (List.Sublist.trans ?_ (List.sublist_append_right _ _)) _
    exact List.Sublist.flatMap_right _ fun p hp => ih p (by rw [parts_eq]; exact List.mem_append_right _ hp)

/-- A walk asks about the calls in scope and about the strays. -/
theorem visits_perm (t : Tree) : (visits t).list.Perm ((shallowCalls t).list ++ strays t) := by
  induction t using parts_induction with
  | step t ih =>
    have hscope : ∀ p ∈ scopeParts t, (visits p).list.Perm ((shallowCalls p).list ++ strays p) := fun p hp =>
      ih p (by rw [parts_eq]; exact List.mem_append_right _ hp)
    have hinside : ((scopeParts t).flatMap fun p => (visits p).list).Perm
        (((scopeParts t).flatMap fun p => (shallowCalls p).list) ++ (scopeParts t).flatMap strays) :=
      (List.Perm.flatMap_left _ hscope).trans (List.flatMap_append_perm _ _ _).symm
    rw [visits_list, shallowCalls_list, strays_eq, parts_eq, List.flatMap_append, List.append_assoc]
    refine List.Perm.append_left _ ((List.Perm.append_left _ hinside).trans ?_)
    rw [← List.append_assoc, ← List.append_assoc]
    exact List.Perm.append_right _ List.perm_append_comm

theorem visits_eq_scope_iff {t : Tree} : (visits t).list = (shallowCalls t).list ↔ strays t = [] := by
  have hlength := (visits_perm t).length_eq
  rw [List.length_append] at hlength
  constructor
  · intro h
    rw [h] at hlength
    exact List.eq_nil_of_length_eq_zero (by omega)
  · intro h
    rw [h, List.length_nil, Nat.add_zero] at hlength
    exact ((scope_sublist t).eq_of_length hlength.symm).symm

/-! ### Trees without calls -/

theorem asRead_node (k : Kind) (cs : List Tree) : asRead (.node k cs) = .node k (cs.map asRead) := by
  rw [asRead, asReadAll_eq]

theorem asRead_group (d : Delimiter) (o c : Pos) (content : List Tree) :
    asRead (.group d o content c) = .group d o (content.map asRead) c := by
  rw [asRead, asReadAll_eq]

theorem seesParts_asRead : SeesParts asRead where
  list h := by rw [asRead_node, asRead_node, h]
  group h := by rw [asRead_group, asRead_group, h]

/-- A tree whose visited parts read as they did reads as it did. -/
theorem asRead_withParts {t : Tree} {new : List Tree} (h : new.map asRead = (parts t).map asRead) :
    asRead (withParts t new) = asRead t := by
  have hform := exchange t (by simpa using congrArg List.length h)
  generalize withParts t new = t', parts t = ps at hform h ⊢
  cases hform with
  | repeated | forLoop | whileLoop | matched =>
    simp only [List.map_cons, List.cons.injEq] at h
    simp [asRead_node, asRead_group, h]
  | closed | hidden | leaf | tokens => rfl
  | body => rw [asRead_node, asRead_node, map_withLastArgOf seesParts_asRead h]
  | awaitedBody => simp [asRead_node, map_withLastArgOf seesParts_asRead h]
  | awaited => simp [asRead_node, h]
  | children => rw [asRead_node, asRead_node, h]
  | group => rw [asRead_group, asRead_group, h]
  | arguments => rw [asRead, asRead, asReadAll_eq, asReadAll_eq, h]

section
variable {σ : Type} (strategy : Strategy σ) (function : String)

theorem visits_parts_of_nil {t p : Tree} (h : visits t = .nil) (hp : p ∈ parts t) : visits p = .nil := by
  cases hcalls : visits p with
  | nil => rfl
  | cons c inside rest =>
    have hmem : c ∈ (visits t).list := mem_visits_of_parts hp (by rw [hcalls]; exact List.mem_cons_self)
    rw [h] at hmem
    cases hmem

theorem isAsked_of_visits_nil {t : Tree} (h : visits t = .nil) : isAsked t = false := by
  cases ha : isAsked t with
  | false => rfl
  | true =>
    rw [visits_eq, ha] at h
    cases h

theorem asRead_walkAll {ts : List Tree} (h : ∀ t ∈ ts, ∀ n s, asRead (walk strategy function t n s).1.1 = asRead t)
    (n : Nat) (s : σ) : (walkAll strategy function ts n s).1.1.map asRead = ts.map asRead := by
  induction ts generalizing n s with
  | nil => simp
  | cons t ts ih =>
    rw [walkAll_cons, List.map_cons, List.map_cons]
    rw [h t (by simp), ih (fun u hu => h u (by simp [hu]))]

/-- A walk that asks about nothing in a tree leaves it as it reads. -/
theorem asRead_walk {t : Tree} (h : visits t = .nil) (n : Nat) (s : σ) :
    asRead (walk strategy function t n s).1.1 = asRead t := by
  induction t using parts_induction generalizing n s with
  | step t ih =>
    have hsite : site? function t = none := by
      rw [← Option.not_isSome_iff_eq_none, site?_isSome, isAsked_of_visits_nil h]
      exact Bool.false_ne_true
    have hparts := asRead_walkAll strategy function fun p hp n s => ih p hp (visits_parts_of_nil h hp) n s
    rw [walk_of_none _ _ hsite]
    exact asRead_withParts (hparts n s)

/-! ### What changes -/

mutual

/-- The second tree is the first one with only parts in scope changed. -/
inductive Inside : Tree → Tree → Prop where
  | same (t : Tree) : Inside t t
  | entered {k : Kind} {cs : List Tree} {t' : Tree} (hk : isEntered (.node k cs) = true)
      (h : visits (.node k cs) = .nil → asRead t' = asRead (.node k cs)) : Inside (.node k cs) t'
  | repeated {attrs elem elem' : Tree} {d : Delimiter} {o c : Pos} {rest : List Tree} (h : Framed elem elem') :
      Inside (.node .repeatExpr [attrs, .group d o (elem :: rest) c]) (.node .repeatExpr [attrs, .group d o (elem' :: rest) c])
  | body {cs new : List Tree} {name : List String} (hname : generatedCall? (.node .callExpr cs) = some name)
      (hbody : holdsBody name = true) (h : FramedAll (lastArgOf cs) new) :
      Inside (.node .callExpr cs) (.node .callExpr (withLastArgOf new cs))
  | awaitedBody {cs new : List Tree} {name : List String} (hname : generatedCall? (.node .awaitExpr cs) = some name)
      (hbody : holdsBody name = true) (h : FramedAll (awaitedLastArg cs) new) :
      Inside (.node .awaitExpr cs) (.node .awaitExpr (withAwaitedLastArg new cs))
  | awaited {cs new : List Tree} (hasked : isAsked (.node .awaitExpr cs) = true) (h : FramedAll (awaitedParts cs) new) :
      Inside (.node .awaitExpr cs) (.node .awaitExpr (withAwaited new cs))
  | node {k : Kind} {cs new : List Tree} (hscope : isOutside k = false) (hrepeat : k = .repeatExpr → hasOwnOrder (.node k cs) = false)
      (hown : generatedCall? (.node k cs) = none) (hawait : k = .awaitExpr → isAsked (.node k cs) = false)
      (h : FramedAll cs new) : Inside (.node k cs) (.node k new)
  | group {d : Delimiter} {o c : Pos} {content new : List Tree} (h : FramedAll content new) :
      Inside (.group d o content c) (.group d o new c)
  | arguments {written : List TokenTree} {read new : List Tree} (h : FramedAll read new) :
      Inside (.arguments written read) (.arguments (new.flatMap Tree.written) new)

/-- The second tree is what a strategy may make of the first one: calls in scope may be replaced, after the parts in scope
    inside them, and nothing else is changed. -/
inductive Framed : Tree → Tree → Prop where
  | kept {t t' : Tree} (h : Inside t t') : Framed t t'
  | replaced {t call t' : Tree} {site : Site} {s : σ} (hsite : site? function t = some site) (h : Inside t call)
      (hreplace : (strategy.replace site call s).1 = t') : Framed t t'

inductive FramedAll : List Tree → List Tree → Prop where
  | nil : FramedAll [] []
  | cons {t t' : Tree} {ts ts' : List Tree} (h : Framed t t') (hs : FramedAll ts ts') : FramedAll (t :: ts) (t' :: ts')

end

variable {strategy : Strategy σ} {function : String}

theorem Framed.same (t : Tree) : Framed strategy function t t := .kept (.same t)

theorem framedAll_cons {t t' : Tree} {ts ts' : List Tree} : FramedAll strategy function (t :: ts) (t' :: ts') ↔
    Framed strategy function t t' ∧ FramedAll strategy function ts ts' := by
  constructor
  · intro h
    cases h with
    | cons h hs => exact ⟨h, hs⟩
  · exact fun ⟨h, hs⟩ => .cons h hs

theorem FramedAll.length_eq {ts new : List Tree} (h : FramedAll strategy function ts new) : new.length = ts.length := by
  induction ts generalizing new with
  | nil =>
    cases h
    rfl
  | cons t ts ih =>
    cases h with
    | cons _ hs => exact congrArg Nat.succ (ih hs)

/-- A block whose inner attributes and statements may have changed. -/
theorem framed_block {d : Delimiter} {o c : Pos} {inner inner' stmts stmts' : Tree} (hinner : Framed strategy function inner inner')
    (hstmts : Framed strategy function stmts stmts') : Framed strategy function (.node .block [.group d o [inner, stmts] c])
      (.node .block [.group d o [inner', stmts'] c]) := by
  have hgroup : Framed strategy function (.group d o [inner, stmts] c) (.group d o [inner', stmts'] c) :=
    .kept (.group (.cons hinner (.cons hstmts .nil)))
  exact .kept (.node rfl nofun rfl nofun (.cons hgroup .nil))

/-- What a walk makes of a tree: it changes parts in scope only, and where it enters attributes or constants of patterns
    that hold no call, they read as before. -/
theorem inside_withParts {t : Tree} {new : List Tree} (h : FramedAll strategy function (parts t) new)
    (hread : visits t = .nil → asRead (withParts t new) = asRead t) : Inside strategy function t (withParts t new) := by
  have hform := exchange t h.length_eq
  generalize withParts t new = t', parts t = ps at hform h hread ⊢
  cases hform with
  | repeated => exact .repeated (framedAll_cons.mp h).1
  | forLoop =>
    simp only [framedAll_cons] at h
    obtain ⟨hattrs, hinner, hpat, hiterated, hstmts, -⟩ := h
    exact .node rfl nofun rfl nofun (.cons hattrs (.cons (.same _) (.cons (.same _) (.cons hpat (.cons (.same _)
      (.cons hiterated (.cons (framed_block hinner hstmts) .nil)))))))
  | whileLoop =>
    simp only [framedAll_cons] at h
    obtain ⟨hattrs, hinner, hcond, hstmts, -⟩ := h
    exact .node rfl nofun rfl nofun (.cons hattrs (.cons (.same _) (.cons (.same _) (.cons hcond
      (.cons (framed_block hinner hstmts) .nil)))))
  | matched attrs m value inner arms d o c attrs' inner' value' arms' =>
    simp only [framedAll_cons] at h
    obtain ⟨hattrs, hinner, hvalue, harms, -⟩ := h
    have hgroup : Framed strategy function (.group d o [inner, arms] c) (.group d o [inner', arms'] c) :=
      .kept (.group (.cons hinner (.cons harms .nil)))
    exact .node rfl nofun rfl nofun (.cons hattrs (.cons (.same m) (.cons hvalue (.cons hgroup .nil))))
  | closed | hidden | leaf | tokens => exact .same _
  | body hr hb => exact .body hr hb h
  | awaitedBody attrs dot await hr hb => exact .awaitedBody hr hb h
  | awaited hg hc => exact .awaited (by simp [isAsked, hg, hc]) h
  | @children k _ hn hk hg hc =>
    cases hentered : isEntered (.node k ps) with
    | true => exact .entered hentered hread
    | false =>
      have hscope : isOutside k = false := by
        rw [isOutside_eq, Bool.or_assoc, ← isEntered_eq k ps, hentered, hk]
        rfl
      exact .node hscope (fun _ => hn) hg (fun ha => by simp [isAsked, hc ha]) h
  | group => exact .group h
  | arguments => exact .arguments h

theorem walkAll_framed {ts : List Tree} (h : ∀ t ∈ ts, ∀ n s, Framed strategy function t (walk strategy function t n s).1.1)
    (n : Nat) (s : σ) : FramedAll strategy function ts (walkAll strategy function ts n s).1.1 := by
  induction ts generalizing n s with
  | nil =>
    rw [walkAll_nil]
    exact .nil
  | cons t ts ih =>
    rw [walkAll_cons]
    exact .cons (h t (by simp) n s) (ih (fun u hu => h u (by simp [hu])) _ _)

/-- A walk changes calls in scope only, as its strategy says. -/
theorem walk_framed (t : Tree) (n : Nat) (s : σ) : Framed strategy function t (walk strategy function t n s).1.1 := by
  induction t using parts_induction generalizing n s with
  | step t ih =>
    have hinside : ∀ n s, Inside strategy function t (withParts t (walkAll strategy function (parts t) n s).1.1) := by
      intro n s
      refine inside_withParts (walkAll_framed (fun p hp n s => ih p hp n s) n s) fun hnil => asRead_withParts ?_
      exact asRead_walkAll strategy function (fun p hp n s => asRead_walk strategy function (visits_parts_of_nil hnil hp) n s) n s
    cases hsite : site? function t with
    | none =>
      rw [walk_of_none _ _ hsite]
      exact .kept (hinside n s)
    | some site =>
      rw [walk_of_some _ _ hsite]
      dsimp only
      split
      · exact .replaced hsite (hinside _ _) rfl
      · exact .kept (hinside _ _)

/-- The arguments of a macro are read as expressions if the macro takes a list of expressions and they are one. All others
    stay tokens, which no walk enters. -/
theorem macroArguments_forms {reach : Reach} {path t : Tree} {ts rest : List TokenTree}
    (h : Parse.macroArguments reach path ts = .ok (t, rest)) : ∃ d o content c, t = .group d o [.tokens content] c ∨
      isExpressionMacro path = true ∧ ∃ args, Parse.commas (reach (.expr true)) content = .ok (args, []) ∧
        t = .group d o [.arguments content args.children] c := by
  obtain ⟨d, o, content, c, args, -, rfl, hread⟩ := Parse.macroArguments_read h
  refine ⟨d, o, content, c, ?_⟩
  cases hread with
  | expressions hpath hread => exact .inr ⟨isExpressionMacro_iff.mpr hpath, _, hread, rfl⟩
  | tokens _ => exact .inl rfl

variable (strategy function)

/-- Whatever its strategy says, a walk changes nothing out of scope but calls in attributes and in constants of patterns, and
    about these and the calls in scope alone it asks, each once. So it keeps to the scope exactly if no call stands in an
    attribute or in a constant of a pattern. -/
theorem walkCalls_frame (block : Tree) (s : σ) :
    let log := strategy.log function block s
    walkCalls strategy.logged function block (s, []) =
      ((walkCalls strategy function block s).1, (walkCalls strategy function block s).2, log) ∧
    Framed strategy function block (walkCalls strategy function block s).1.1 ∧
    (∃ asked : List Tree, (sitesAsked log).map some = asked.map (Site.of? function) ∧
      (shallowCalls block).list.Sublist asked ∧ asked.Perm ((shallowCalls block).list ++ strays block)) ∧
    ((sitesAsked log).map some = (shallowCalls block).list.map (Site.of? function) ↔ strays block = []) ∧
    ∀ {reach : Reach} {path t : Tree} {ts rest : List TokenTree}, Parse.macroArguments reach path ts = .ok (t, rest) →
      ∃ d o content c, t = .group d o [.tokens content] c ∨ isExpressionMacro path = true ∧
        ∃ args, Parse.commas (reach (.expr true)) content = .ok (args, []) ∧ t = .group d o [.arguments content args.children] c := by
  intro log
  obtain ⟨hlog, hrun, -⟩ := strategy.log_spec function block s
  have hasked : (sitesAsked log).map some = (visits block).list.map (Site.of? function) := hlog.sitesAsked_map
  refine ⟨hrun, walk_framed block 0 s, ⟨_, hasked, scope_sublist block, visits_perm block⟩, ?_, macroArguments_forms⟩
  rw [hasked, ← visits_eq_scope_iff]
  constructor
  · -- What is asked about holds the scope in order, so that it is no more than that if there are as many.
    intro h
    have hlength := congrArg List.length h
    rw [List.length_map, List.length_map] at hlength
    exact ((scope_sublist block).eq_of_length hlength.symm).symm
  · intro h
    rw [h]

/-- The call in the constant of a pattern is no call in scope, and is asked about and replaced. -/
theorem walkCalls_enters_constant :
    let everything : Strategy Unit := { accepts := fun _ s => (true, s),
                                        replace := fun _ call s => (Make.call (Make.nameExpr "seen") [call], s) }
    ∃ block, (tokenize "{ match x { const { f() } => 1, _ => 2 } }").map Grammar.parseBlock = some (.ok block) ∧
      (shallowCalls block).list.isEmpty = true ∧ (sitesAsked (everything.log "f" block ())).map Site.name = ["f"] ∧
      block.same (walkCalls everything "f" block ()).1.1 = false := by
  intro everything
  obtain ⟨block, hblock, htest⟩ := @block_of_test "{ match x { const { f() } => 1, _ => 2 } }"
    (fun block => (shallowCalls block).list.isEmpty && (sitesAsked (everything.log "f" block ())).map Site.name == ["f"] &&
      !block.same (walkCalls everything "f" block ()).1.1) (by decide +kernel)
  simp only [Bool.and_eq_true, Bool.not_eq_true', beq_iff_eq] at htest
  exact ⟨block, hblock, htest.1.1, htest.1.2, htest.2⟩

end

end CallProbe.Call
