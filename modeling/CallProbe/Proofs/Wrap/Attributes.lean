import CallProbe.Proofs.Behaviour.Wrapped

/-! # Attributes of statements

The attributes in front of a statement that is an expression stand on the first operand of that expression. Where the
operand is a wrapped call, they go with it into the arguments of `finish`. `wrapBlock_attributes` lays the statements of
a block, at every depth, next to those of the wrapped block: this is the only way in which one of them loses its
attributes. -/

namespace CallProbe.Probe

open Source Call

/-! ### Statements and their attributes -/

/-- Kinds of statements that take attributes. That of an item is the item. -/
def isStatement (k : Kind) : Bool := [Kind.letStmt, .macroStmt, .exprStmt].contains k

/-- Whether a call has code of the function as its last argument: it was put there by a probe. -/
def isGenerated (t : Tree) : Bool := (runtimeCall? t).any holdsBody

mutual

/-- The statements of a tree at every depth, each in front of those inside it. Calls that a probe has put there are
    looked through: of these, the statements in the last argument count. -/
def statements : Tree → List Tree
  | .node .callExpr [attrs, callee, .group d o [.node .list args] c] =>
    if isGenerated (.node .callExpr [attrs, callee, .group d o [.node .list args] c]) then lastStatements args
    else statements attrs ++ (statements callee ++ allStatements args)
  | .node k cs => (if isStatement k then [.node k cs] else []) ++ allStatements cs
  | .group _ _ content _ => allStatements content
  | .arguments _ read => allStatements read
  | _ => []

def allStatements : List Tree → List Tree
  | [] => []
  | t :: ts => statements t ++ allStatements ts

/-- The statements in the last element of a list, and in the separator after it. -/
def lastStatements : List Tree → List Tree
  | [] => []
  | [t] => statements t
  | [t, sep] => statements t ++ statements sep
  | _ :: _ :: t :: ts => lastStatements (t :: ts)

end

/-- The statements that a walk comes to. -/
def statementsReached (t : Tree) : List Tree :=
  (if t.kind?.any isStatement then [t] else []) ++ (parts t).attach.flatMap fun p => statementsReached p.1
termination_by sizeOf t
decreasing_by exact sizeOf_parts p.2

/-- The first operand of a chain of operators. -/
def firstOperand : Tree → Tree
  | .node .assignExpr [_, left, _, _] => firstOperand left
  | .node .binaryExpr [_, left, _, _] => firstOperand left
  | .node .castExpr [_, value, _, _] => firstOperand value
  | e => e

/-- What the attributes in front of a statement stand on: the first operand of an expression, or the `let` or the call of
    a macro itself. -/
def bearer : Tree → Tree
  | .node .exprStmt (e :: _) => firstOperand e
  | t => t

/-- The attributes of a node that starts with its attributes. -/
def ownAttrs : Tree → List Tree
  | .node _ (attrs :: _) => attrs.attrList
  | _ => []

/-- The attributes in front of a statement. -/
def outerAttrs (s : Tree) : List Tree := ownAttrs (bearer s)

/-- The last argument of a call. -/
def lastArgument? : Tree → Option Tree
  | .node .callExpr [_, _, .group _ _ [.node .list args] _] => args.getLast?
  | _ => none

mutual

/-- Whether there is no call in a tree, nor arguments of a macro. -/
def isInert : Tree → Bool
  | .node k cs => !isCallKind k && allInert cs
  | .group _ _ content _ => allInert content
  | .arguments _ _ => false
  | _ => true

def allInert : List Tree → Bool
  | [] => true
  | t :: ts => isInert t && allInert ts

end

theorem allStatements_eq (ts : List Tree) : allStatements ts = ts.flatMap statements := by
  induction ts with
  | nil => rfl
  | cons t ts ih => rw [allStatements, ih, List.flatMap_cons]

theorem statementsReached_eq (t : Tree) :
    statementsReached t = (if t.kind?.any isStatement then [t] else []) ++ (parts t).flatMap statementsReached := by
  rw [statementsReached]
  simp

theorem statements_node {k : Kind} {cs : List Tree} (h : isGenerated (.node k cs) = false) :
    statements (.node k cs) = (if isStatement k then [.node k cs] else []) ++ cs.flatMap statements := by
  rw [statements.eq_def]
  split
  · rename_i he
    cases he
    simp [h, isStatement, statements, allStatements_eq]
  · rename_i he
    cases he
    rw [allStatements_eq]
  · rename_i he
    cases he
  · rename_i he
    cases he
  · rename_i hn _ _
    exact absurd rfl (hn k cs)

theorem isGenerated_of_kind {k : Kind} {cs : List Tree} (hk : k ≠ .callExpr) : isGenerated (.node k cs) = false := by
  simp [isGenerated, runtimeCall?, hk]

theorem isGenerated_of_none {t : Tree} (h : runtimeCall? t = none) : isGenerated t = false := by
  simp [isGenerated, h]

@[simp]
theorem statements_group (d : Delimiter) (o c : Pos) (content : List Tree) :
    statements (.group d o content c) = content.flatMap statements := by
  rw [statements, allStatements_eq]

@[simp]
theorem statements_arguments (w : List TokenTree) (read : List Tree) :
    statements (.arguments w read) = read.flatMap statements := by
  rw [statements, allStatements_eq]

theorem lastStatements_append (sep call : Tree) : ∀ guard : List Tree,
    lastStatements (guard ++ [sep, call]) =
      if guard.length % 2 = 1 then statements call else statements sep ++ statements call
  | [] => by simp [lastStatements]
  | [g] => by simp [lastStatements]
  | g :: s :: rest => by
    have hcons : lastStatements (g :: s :: (rest ++ [sep, call])) = lastStatements (rest ++ [sep, call]) := by
      cases rest <;> simp [lastStatements]
    have hlength : (g :: s :: rest).length % 2 = rest.length % 2 := Nat.add_mod_right rest.length 2
    rw [List.cons_append, List.cons_append, hcons, lastStatements_append sep call rest, hlength]

namespace CallOptions

section
variable {options : CallOptions} {function : String}

/-- The statements of a wrapped call are those of the call. -/
theorem statements_wrapped (site : Site) (call : Tree) :
    statements (wrapped options.wrapper site call) = statements call := by
  have hgen : isGenerated (wrapped options.wrapper site call) = true := rfl
  rw [wrapped, Make.call, Make.parens, Tree.list] at hgen ⊢
  rw [statements, if_pos hgen, lastStatements_append]
  simp [Make.symbol, statements]

/-! ### Statements next to each other -/

variable (options function) in
/-- Statements lie next to others of the same number, each next to itself or, if it is one of the given ones, next to
    what wrapping makes of it; and each of these lies next to that. -/
structure Beside (old new rs : List Tree) : Prop where
  length : old.length = new.length
  sound : ∀ q ∈ old.zip new, q.2 = q.1 ∨ q.1 ∈ rs ∧ q.2 = options.wrapTree function q.1
  complete : ∀ s ∈ rs, (s, options.wrapTree function s) ∈ old.zip new

variable (options function) in
/-- The statements of a tree lie beside those of the wrapped tree. -/
def Aligned (t : Tree) : Prop :=
  options.Beside function (statements t) (statements (options.wrapTree function t)) (statementsReached t)

namespace Beside

theorem refl (ss : List Tree) : options.Beside function ss ss [] where
  length := rfl
  sound q hq := by
    have hzip : ss.zip ss = ss.map fun s => (s, s) := by simpa using @List.zip_map' _ _ _ id id ss
    rw [hzip, List.mem_map] at hq
    obtain ⟨s, -, rfl⟩ := hq
    exact .inl rfl
  complete := by simp

theorem single (s : Tree) : options.Beside function [s] [options.wrapTree function s] [s] where
  length := rfl
  sound := by simp
  complete := by simp

theorem append {old new rs old' new' rs' : List Tree} (h : options.Beside function old new rs)
    (h' : options.Beside function old' new' rs') : options.Beside function (old ++ old') (new ++ new') (rs ++ rs') where
  length := by rw [List.length_append, List.length_append, h.length, h'.length]
  sound q hq := by
    rw [List.zip_append h.length, List.mem_append] at hq
    rw [List.mem_append]
    rcases hq with hq | hq
    · exact (h.sound q hq).imp_right fun ⟨hr, hw⟩ => ⟨.inl hr, hw⟩
    · exact (h'.sound q hq).imp_right fun ⟨hr, hw⟩ => ⟨.inr hr, hw⟩
  complete s hs := by
    rw [List.zip_append h.length, List.mem_append]
    exact (List.mem_append.mp hs).imp (h.complete s) (h'.complete s)

theorem congr {old new rs rs' : List Tree} (h : options.Beside function old new rs) (hrs : ∀ s, s ∈ rs' ↔ s ∈ rs) :
    options.Beside function old new rs' where
  length := h.length
  sound q hq := (h.sound q hq).imp_right fun ⟨hr, hw⟩ => ⟨(hrs _).mpr hr, hw⟩
  complete s hs := h.complete s ((hrs s).mp hs)

theorem flatMap {ts : List Tree} (h : ∀ t ∈ ts, options.Aligned function t) :
    options.Beside function (ts.flatMap statements) ((ts.map (options.wrapTree function)).flatMap statements)
      (ts.flatMap statementsReached) := by
  induction ts with
  | nil => exact refl []
  | cons t ts ih => exact (h t (by simp)).append (ih fun u hu => h u (by simp [hu]))

end Beside

/-! ### Statements of a wrapped tree -/

/-- A node whose children are all visited. -/
theorem beside_children {k : Kind} {cs : List Tree} (hg : isGenerated (.node k cs) = false)
    (hg' : isGenerated (.node k (cs.map (options.wrapTree function))) = false) (hk : isStatement k = false)
    (ih : ∀ c ∈ cs, options.Aligned function c) :
    options.Beside function (statements (.node k cs)) (statements (.node k (cs.map (options.wrapTree function))))
      (cs.flatMap statementsReached) := by
  rw [statements_node hg, statements_node hg', hk]
  exact .flatMap ih

theorem isGenerated_map {k : Kind} {cs : List Tree} (h : runtimeCall? (.node k cs) = none) :
    isGenerated (.node k (cs.map (options.wrapTree function))) = false :=
  isGenerated_of_none (by rw [runtimeCall?_map, h])

theorem withLastArg_ne_nil {new ts : List Tree} (hn : new ≠ []) (ht : ts ≠ []) : withLastArg new ts ≠ [] := by
  fun_cases withLastArg new ts <;> simp_all

theorem lastArg_ne_nil {ts : List Tree} (h : ts ≠ []) : lastArg ts ≠ [] := by
  fun_induction lastArg ts <;> simp_all

theorem lastStatements_cons {ts : List Tree} (h : ts ≠ []) (t sep : Tree) :
    lastStatements (t :: sep :: ts) = lastStatements ts := by
  cases ts with
  | nil => exact absurd rfl h
  | cons u us => rw [lastStatements]

theorem beside_lastArg {args : List Tree}
    (ih : ∀ p ∈ lastArg args, options.Aligned function p) :
    options.Beside function (lastStatements args)
      (lastStatements (withLastArg ((lastArg args).map (options.wrapTree function)) args))
      ((lastArg args).flatMap statementsReached) := by
  fun_induction lastArg args with
  | case1 => exact .refl []
  | case2 t => simpa [withLastArg, lastStatements, Aligned] using ih t (by simp)
  | case3 t sep =>
    have hboth := (ih t (by simp)).append (.refl (statements sep))
    simpa [withLastArg, lastStatements] using hboth
  | case4 t sep rest hrest ih' =>
    have hne : rest ≠ [] := hrest
    have hnew : withLastArg ((lastArg rest).map (options.wrapTree function)) rest ≠ [] :=
      withLastArg_ne_nil (by simpa using lastArg_ne_nil hne) hne
    rw [withLastArg, lastStatements_cons hne, lastStatements_cons hnew]
    · exact ih' ih
    · exact hrest

/-- What wrapping leaves of a call that a probe has put there: its last argument is wrapped, and where there is none,
    nothing is. -/
theorem beside_generated {cs : List Tree} (hg : isGenerated (.node .callExpr cs) = true)
    (ih : ∀ p ∈ lastArgOf cs, options.Aligned function p) :
    options.Beside function (statements (.node .callExpr cs))
      (statements (.node .callExpr (withLastArgOf ((lastArgOf cs).map (options.wrapTree function)) cs)))
      ((lastArgOf cs).flatMap statementsReached) := by
  fun_cases lastArgOf cs with
  | case1 attrs callee d o args c =>
    have hnew : isGenerated (.node .callExpr [attrs, callee, .group d o [.node .list
        (withLastArg ((lastArg args).map (options.wrapTree function)) args)] c]) = true := by
      rw [← hg, isGenerated, isGenerated, Behaviour.runtimeCall?_args]
    simp only [withLastArgOf]
    rw [statements, if_pos hg, statements, if_pos hnew]
    exact beside_lastArg ih
  | case2 hargs =>
    have hsame : withLastArgOf [] cs = cs := by simp [withLastArgOf]
    rw [List.map_nil, hsame]
    exact .refl _

/-- With the accepted calls inside it wrapped, a tree that is no statement has the statements of its parts. -/
theorem beside_inside {t : Tree} (hs : t.kind?.any isStatement = false)
    (ih : ∀ p ∈ parts t, options.Aligned function p) :
    options.Beside function (statements t) (statements (options.wrapInside function t))
      ((parts t).flatMap statementsReached) := by
  have plain {k : Kind} {cs : List Tree} (hk : k ≠ .callExpr) (hst : isStatement k = false) :
      statements (.node k cs) = cs.flatMap statements := by
    simp [statements_node (isGenerated_of_kind hk), hst]
  have hgenerated {cs : List Tree} {name : List String} (hr : runtimeCall? (.node .callExpr cs) = some name)
      (hb : holdsBody name = true) : isGenerated (.node .callExpr cs) = true := by simpa [isGenerated, hr] using hb
  have hform := options.exchange_wrapInside function t
  generalize hnew : (parts t).map (options.wrapTree function) = new at hform
  generalize options.wrapInside function t = t', parts t = ps at hform hnew ih ⊢
  -- Where children are visited in another order than they are written, what is reached is the same all the same.
  cases hform with
  | repeated attrs elem elem' d o c rest =>
    cases hnew
    have hattrs : options.Beside function (statements attrs) (statements attrs) [] := .refl _
    have hall := hattrs.append ((ih elem (by simp)).append (.refl (rest.flatMap statements)))
    simpa [plain, isStatement] using hall
  | forLoop attrs label f pat i iterated inner stmts =>
    cases hnew
    have hpart : ∀ p ∈ [attrs, pat, iterated, inner, stmts], options.Aligned function p :=
      fun p hp => ih p (by simp at hp ⊢; tauto)
    have hall := (hpart attrs (by simp)).append <|
      (Beside.refl (statements label ++ statements f)).append <| (hpart pat (by simp)).append <|
      (Beside.refl (statements i)).append <| (hpart iterated (by simp)).append <|
      (hpart inner (by simp)).append (hpart stmts (by simp))
    simp [plain, isStatement] at hall ⊢
    exact hall.congr (by simp; tauto)
  | whileLoop attrs label w cond inner stmts =>
    cases hnew
    have hpart : ∀ p ∈ [attrs, inner, cond, stmts], options.Aligned function p := ih
    have hall := (hpart attrs (by simp)).append <|
      (Beside.refl (statements label ++ statements w)).append <| (hpart cond (by simp)).append <|
      (hpart inner (by simp)).append (hpart stmts (by simp))
    simp [plain, isStatement] at hall ⊢
    exact hall.congr (by simp; tauto)
  | matched attrs m value inner arms =>
    cases hnew
    have hpart : ∀ p ∈ [attrs, inner, value, arms], options.Aligned function p := ih
    have hall := (hpart attrs (by simp)).append <| (Beside.refl (statements m)).append <|
      (hpart value (by simp)).append <| (hpart inner (by simp)).append (hpart arms (by simp))
    simp [plain, isStatement] at hall ⊢
    exact hall.congr (by simp; tauto)
  | closed | hidden | leaf | tokens => exact .refl _
  | body hr hb =>
    cases hnew
    exact beside_generated (hgenerated hr hb) ih
  | awaitedBody attrs dot await hr hb =>
    cases hnew
    have hall := (Beside.refl (statements attrs)).append <|
      (beside_generated (hgenerated hr hb) ih).append (.refl (statements dot ++ statements await))
    rw [plain (by decide) rfl, plain (by decide) rfl]
    simpa using hall
  | @awaited attrs dot await l _ hg hc =>
    cases hnew
    -- The awaited call is no part of its own.
    rw [callOf?_isSome] at hc
    obtain ⟨l', base', he, hl⟩ := Behaviour.kind_of_ofCall? hc
    cases he
    have hstl : isStatement l = false := by rcases hl with rfl | rfl <;> rfl
    have hall := (Beside.refl (statements attrs)).append <|
      (beside_children (isGenerated_of_none hg) (isGenerated_map hg) hstl ih).append
        (.refl (statements dot ++ statements await))
    rw [plain (by decide) rfl, plain (by decide) rfl]
    simpa using hall
  | @children k _ hn hk hg =>
    cases hnew
    have hr : runtimeCall? (.node k ps) = none := by
      by_cases ha : k = .awaitExpr
      · simp [runtimeCall?, ha]
      · rwa [generatedCall?_eq, withoutAwait_of_kind ha] at hg
    exact beside_children (isGenerated_of_none hr) (isGenerated_map hr) hs ih
  | group =>
    cases hnew
    rw [statements_group, statements_group]
    exact .flatMap ih
  | arguments =>
    cases hnew
    rw [statements_arguments, statements_arguments]
    exact .flatMap ih

theorem aligned (t : Tree) : options.Aligned function t := by
  induction t using parts_induction with
  | step t ih =>
    rw [Aligned, statementsReached_eq]
    cases hs : t.kind?.any isStatement with
    | true =>
      obtain ⟨k, hk, hst⟩ := (Option.any_eq_true _ _).mp hs
      obtain ⟨cs, rfl⟩ := kind?_eq_some hk
      have hopen : isOpen k = true := by cases k <;> first | rfl | cases hst
      have hcall : k ≠ .callExpr := by
        rintro rfl
        cases hst
      have hself : options.Beside function [.node k cs] _ [.node k cs] := .single _
      have hall := hself.append (.flatMap ih)
      rw [parts_of_isOpen hopen] at hall ⊢
      rw [wrapTree_of_isOpen _ _ hopen] at hall ⊢
      rw [statements_node (isGenerated_of_kind hcall), statements_node (isGenerated_of_kind hcall), if_pos hst, if_pos hst]
      exact hall
    | false =>
      have hinside := beside_inside hs ih
      rw [wrapTree_eq]
      split
      · split
        · rwa [statements_wrapped]
        · exact hinside
      · exact hinside

/-! ### Attributes of a wrapped statement -/

theorem attrList_wrapTree (t : Tree) :
    (options.wrapTree function t).attrList = t.attrList.map (options.wrapTree function) := by
  cases t with
  | node k cs =>
    by_cases hk : k = .attrs
    · subst hk
      rw [wrapTree_of_isOpen _ _ rfl]
      rfl
    · obtain ⟨k', cs', hcs, hne⟩ := options.wrapTree_kind_ne function cs hk (by decide)
      rw [hcs]
      simp [Tree.attrList, hk, hne]
  | leaf l => simp [Tree.attrList]
  | tokens ts => simp [Tree.attrList]
  | arguments w read => simp [Tree.attrList]
  | group d o content c => simp [Tree.attrList]

theorem firstOperand_wrapTree (e : Tree) :
    firstOperand (options.wrapTree function e) = options.wrapTree function (firstOperand e) := by
  fun_induction firstOperand e with
  | case1 attrs left op right ih =>
    rw [wrapTree_of_isOpen _ _ rfl]
    exact ih
  | case2 attrs left op right ih =>
    rw [wrapTree_of_isOpen _ _ rfl]
    exact ih
  | case3 attrs value op type ih =>
    rw [wrapTree_of_isOpen _ _ rfl]
    exact ih
  | case4 e hassign hbinary hcast =>
    rw [firstOperand.eq_def]
    split
    · rename_i he
      obtain ⟨cs, rfl, hcs⟩ := node_of_wrapTree rfl he
      simp only [List.map_eq_cons_iff, List.map_eq_nil_iff] at hcs
      obtain ⟨_, _, rfl, -, _, _, rfl, -, _, _, rfl, -, _, _, rfl, -, rfl⟩ := hcs
      exact absurd rfl (hassign _ _ _ _)
    · rename_i he
      obtain ⟨cs, rfl, hcs⟩ := node_of_wrapTree rfl he
      simp only [List.map_eq_cons_iff, List.map_eq_nil_iff] at hcs
      obtain ⟨_, _, rfl, -, _, _, rfl, -, _, _, rfl, -, _, _, rfl, -, rfl⟩ := hcs
      exact absurd rfl (hbinary _ _ _ _)
    · rename_i he
      obtain ⟨cs, rfl, hcs⟩ := node_of_wrapTree rfl he
      simp only [List.map_eq_cons_iff, List.map_eq_nil_iff] at hcs
      obtain ⟨_, _, rfl, -, _, _, rfl, -, _, _, rfl, -, _, _, rfl, -, rfl⟩ := hcs
      exact absurd rfl (hcast _ _ _ _)
    · rfl

theorem bearer_of_kind {k : Kind} {cs : List Tree} (hk : k ≠ .exprStmt) : bearer (.node k cs) = .node k cs := by
  simp [bearer, hk]

/-- The attributes of a statement stand on what wrapping makes of what they stood on. -/
theorem bearer_wrapTree {s : Tree} (hs : s.kind?.any isStatement = true) :
    bearer (options.wrapTree function s) = options.wrapTree function (bearer s) := by
  obtain ⟨k, hk, hst⟩ := (Option.any_eq_true _ _).mp hs
  obtain ⟨cs, rfl⟩ := kind?_eq_some hk
  have hopen : isOpen k = true := by cases k <;> first | rfl | cases hst
  rw [wrapTree_of_isOpen _ _ hopen]
  by_cases he : k = .exprStmt
  · subst he
    cases cs with
    | nil => exact (wrapTree_of_isOpen _ _ rfl).symm
    | cons e rest => exact firstOperand_wrapTree e
  · rw [bearer_of_kind he, bearer_of_kind he, wrapTree_of_isOpen _ _ hopen]

variable (options function) in
/-- Attributes stay, up to calls in their values, which are wrapped like others. -/
def Keeps (as as' : List Tree) : Prop := as' = as ∨ as' = as.map (options.wrapTree function)

theorem keeps_children (k : Kind) (cs : List Tree) :
    options.Keeps function (ownAttrs (.node k cs)) (ownAttrs (.node k (cs.map (options.wrapTree function)))) := by
  cases cs with
  | nil => exact .inl rfl
  | cons a cs => exact .inr (attrList_wrapTree a)

theorem ownAttrs_withLastArgOf (k : Kind) (new cs : List Tree) :
    ownAttrs (.node k (withLastArgOf new cs)) = ownAttrs (.node k cs) := by
  fun_cases withLastArgOf new cs <;> rfl

/-- Wrapping the calls inside a tree keeps its attributes. -/
theorem keeps_wrapInside (t : Tree) :
    options.Keeps function (ownAttrs t) (ownAttrs (options.wrapInside function t)) := by
  have hform := options.exchange_wrapInside function t
  generalize hnew : (parts t).map (options.wrapTree function) = new at hform
  generalize options.wrapInside function t = t', parts t = ps at hform hnew ⊢
  cases hform with
  | forLoop attrs | whileLoop attrs | matched attrs =>
    cases hnew
    exact .inr (attrList_wrapTree attrs)
  | body => exact .inl (ownAttrs_withLastArgOf ..)
  | children =>
    cases hnew
    exact keeps_children ..
  | _ => exact .inl rfl

theorem isStatement_of_reached {s t : Tree} (h : s ∈ statementsReached t) : s.kind?.any isStatement = true := by
  induction t using parts_induction with
  | step t ih =>
    rw [statementsReached_eq, List.mem_append, List.mem_flatMap] at h
    obtain h | ⟨p, hp, h⟩ := h
    · split at h
      · rename_i hs
        rw [List.mem_singleton] at h
        rwa [h]
      · cases h
    · exact ih p hp h

variable (options function) in
/-- Where the attributes of a statement stand on a wrapped call, they are inside `finish` afterwards. Elsewhere they
    stay. -/
theorem outerAttrs_wrapTree {s : Tree} (hs : s.kind?.any isStatement = true) :
    if options.isWrapped function (bearer s) then
      outerAttrs (options.wrapTree function s) = [] ∧
        ∃ call, lastArgument? (bearer (options.wrapTree function s)) = some call ∧
          options.Keeps function (outerAttrs s) (ownAttrs call)
    else options.Keeps function (outerAttrs s) (outerAttrs (options.wrapTree function s)) := by
  rw [outerAttrs, outerAttrs, bearer_wrapTree hs]
  split
  · rename_i hw
    obtain ⟨site, -, hwrap⟩ := options.wrapTree_of_isWrapped function hw
    rw [hwrap]
    refine ⟨rfl, options.wrapInside function (bearer s), ?_, keeps_wrapInside _⟩
    simp [wrapped, Make.call, Make.parens, Tree.list, lastArgument?]
  · rename_i hw
    rw [options.wrapTree_of_not_isWrapped function (by simpa using hw)]
    exact keeps_wrapInside _

/-- Each statement of a wrapped block, at every depth, has the attributes of the statement of the block in its place, but
    for those that stood on a wrapped call: they went with it into the arguments of `finish`. So all of them stay just if
    no wrapped call has any. -/
theorem wrapBlock_attributes (options : CallOptions) (function : String) (block : Tree) :
    let block' := (options.wrapBlock function block).1.1
    (statements block').length = (statements block).length ∧
    (∀ q ∈ (statements block).zip (statements block'), q.2 = q.1 ∨ q.1 ∈ statementsReached block ∧
      if options.isWrapped function (bearer q.1) then
        outerAttrs q.2 = [] ∧
          ∃ call, lastArgument? (bearer q.2) = some call ∧ options.Keeps function (outerAttrs q.1) (ownAttrs call)
      else options.Keeps function (outerAttrs q.1) (outerAttrs q.2)) ∧
    ((∀ q ∈ (statements block).zip (statements block'), options.Keeps function (outerAttrs q.1) (outerAttrs q.2)) ↔
      ∀ s ∈ statementsReached block, options.isWrapped function (bearer s) = true → outerAttrs s = []) := by
  have hblock : (options.wrapBlock function block).1.1 = options.wrapTree function block := by rw [wrapBlock_eq]
  have hbeside : options.Aligned function block := aligned block
  rw [hblock]
  refine ⟨hbeside.length.symm, fun q hq => ?_, fun hall s hs hw => ?_, fun hfree q hq => ?_⟩
  · obtain hsame | ⟨hr, hwrap⟩ := hbeside.sound q hq
    · exact .inl hsame
    · rw [hwrap]
      exact .inr ⟨hr, outerAttrs_wrapTree options function (isStatement_of_reached hr)⟩
  · -- A wrapped call has no attributes in front of it any more, so that to keep its attributes it must have had none.
    have hmoved := outerAttrs_wrapTree options function (isStatement_of_reached hs)
    have hkept := hall _ (hbeside.complete s hs)
    rw [if_pos hw] at hmoved
    rw [hmoved.1] at hkept
    obtain hnone | hnone := hkept
    · exact hnone.symm
    · exact List.map_eq_nil_iff.mp hnone.symm
  · obtain hsame | ⟨hr, hwrap⟩ := hbeside.sound q hq
    · exact .inl (by rw [hsame])
    · have hstep := outerAttrs_wrapTree options function (isStatement_of_reached hr)
      rw [← hwrap] at hstep
      split at hstep
      · rename_i hw
        rw [hstep.1, hfree _ hr hw]
        exact .inl rfl
      · exact hstep

/-- In `{ #[cfg(x)] f(); }` the attribute goes with the call into the arguments of `finish`. -/
theorem wrapBlock_moves_attribute :
    let options : CallOptions := { wrapper := Make.path false ["seen"] }
    let numbers (block : Tree) := (statements block).map fun s =>
      ((outerAttrs s).length, (lastArgument? (bearer s)).map fun call => (ownAttrs call).length)
    let block := (tokenize "{ #[cfg(x)] f(); }").bind fun ts => (Grammar.parseBlock ts).toOption
    block.map (fun b => (statementsReached b).all fun s => (outerAttrs s).all isInert) = some true ∧
    block.map numbers = some [(1, none)] ∧
    (block.map fun b => numbers (options.wrapBlock "g" b).1.1) = some [(0, some 1)] := by
  decide +kernel

end

end CallOptions

end CallProbe.Probe
