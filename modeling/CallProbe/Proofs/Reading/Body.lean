import CallProbe.Proofs.Reading.Wrapped

/-! # Bodies that read again after wrapping

A body is `Plain` if it is made of common expressions and statements, and of other code that wrapping leaves as it is and that
reads as it is written. Only one thing is asked of what wrapping makes of it: behind the label of a `break` there is no colon. -/

namespace CallProbe.Probe

open Source Call Parse

/-- What a part of a body is. -/
inductive Part where
  | operand (early named : Bool)
  | leading (early : Bool) (p : Precedence)
  | chain (early : Bool) (p : Precedence)
  | value (early : Bool)
  | args
  | pattern
  | stmt
  | stmts
  | branch
  | blockLike

/-- That a part is written as it is and reads as it is written. -/
def Part.Reads : Part → Tree → Prop
  | operand e n, t => Operand e n t
  | leading e p, t => Leading e p t
  | chain e p, t => Chained e p t
  | value e, t => Valued e t
  | args, t => ∃ as, t = .list as ∧ Separated as ∧ ∀ a ∈ as, Settled a
  | pattern, t => Binds t ∧ Settled t
  | stmt, t => Stmt t ∧ Settled t
  | stmts, t => ∃ ss, t = .node .stmts ss ∧ Stmts ss ∧ ∀ s ∈ ss, Settled s
  | branch, t => Branch t
  | blockLike, t => BlockLike t

/-- A tree that wrapping leaves as it is. -/
structure CallOptions.Idle (options : CallOptions) (name : String) (t : Tree) : Prop where
  kept : options.wrapTree name t = t
  calls : ∀ c ∈ (visits t).list, options.acceptsCall name c = false

section
variable (options : CallOptions) (name : String)

/-- Code whose calls can be wrapped so that it reads again. -/
inductive Plain : Part → Tree → Prop where
  | idle {part : Part} {t : Tree} (h : part.Reads t) (hidle : options.Idle name t) : Plain part t
  -- Operands
  | late {n : Bool} {t : Tree} (h : Plain (.operand true n) t) : Plain (.operand false n) t
  | unnamed {e : Bool} {t : Tree} (h : Plain (.operand e false) t) : Plain (.operand e true) t
  | literal (l : String) (p : Pos) : Plain (.operand true false) (.node .litExpr [.noAttrs, .leaf (.literal l p)])
  | path {path : Tree} (h : Generic true path) : Plain (.operand true false) (.node .pathExpr [.noAttrs, path])
  | call {e : Bool} {callee args : Tree} {o c : Pos} (hcallee : Plain (.operand e false) callee) (hargs : Plain .args args)
      (hown : runtimeCall? (.node .callExpr [.noAttrs, callee, .group .paren o [args] c]) = none) :
      Plain (.operand e false) (.node .callExpr [.noAttrs, callee, .group .paren o [args] c])
  | method {e n : Bool} {base turbofish args : Tree} {m : String} {dot p o c : Pos} (hbase : Plain (.operand e n) base)
      (hm : Ahead.keywords.contains m = false) (hturbofish : turbofish = .absent ∨ Argued true turbofish)
      (hargs : Plain .args args) :
      Plain (.operand e false) (.node .methodCallExpr [.noAttrs, base, .leaf (.symbol "." dot), .leaf (.word m p), turbofish,
        .group .paren o [args] c])
  | field {e n : Bool} {base : Tree} {m : String} {dot p : Pos} (hbase : Plain (.operand e n) base)
      (hm : Ahead.keywords.contains m = false) :
      Plain (.operand e true) (.node .fieldExpr [.noAttrs, base, .leaf (.symbol "." dot), .leaf (.word m p)])
  | index {e n e' : Bool} {base key : Tree} {o c : Pos} (hbase : Plain (.operand e n) base) (hkey : Plain (.value e') key) :
      Plain (.operand e false) (.node .indexExpr [.noAttrs, base, .group .bracket o [key] c])
  | question {e n : Bool} {base : Tree} {p : Pos} (hbase : Plain (.operand e n) base) :
      Plain (.operand e false) (.node .tryExpr [.noAttrs, base, .leaf (.symbol "?" p)])
  | await {e n : Bool} {base : Tree} {dot p : Pos} (hbase : Plain (.operand e n) base) (hown : runtimeCall? base = none) :
      Plain (.operand e false) (.node .awaitExpr [.noAttrs, base, .leaf (.symbol "." dot), .leaf (.word "await" p)])
  | paren {e : Bool} {t : Tree} {o c : Pos} (h : Plain (.value e) t) :
      Plain (.operand true false) (.node .parenExpr [.noAttrs, .group .paren o [t] c])
  | macroCall {path : Tree} {read : List Tree} {written : List TokenTree} {d : Delimiter} {o c b : Pos} (hpath : Names path)
      (hexprs : isExpressionMacro path = true) (hargs : Plain .args (.list read)) :
      Plain (.operand false false) (.node .macroExpr [.noAttrs, macroOf path (.group d o [.arguments written read] c) b])
  | blockOperand {t : Tree} (h : Plain .blockLike t) : Plain (.operand false false) t
  -- Operators
  | leading {e n : Bool} {t : Tree} (h : Plain (.operand e n) t) : Plain (.leading e .closed) t
  | unary {e : Bool} {p : Precedence} {op : String} {t : Tree} {q : Pos} (h : Plain (.leading e p) t) (hop : op ∈ ["*", "!", "-"]) :
      Plain (.leading true .prefixed) (.node .unaryExpr [.noAttrs, .leaf (.symbol op q), t])
  | reference {e : Bool} {p : Precedence} {t : Tree} {q : Pos} (h : Plain (.leading e p) t) :
      Plain (.leading true .prefixed) (.node .referenceExpr [.noAttrs, .leaf (.symbol "&" q), .absent, t])
  | mutable {e : Bool} {p : Precedence} {t : Tree} {q r : Pos} (h : Plain (.leading e p) t) :
      Plain (.leading true .prefixed) (.node .referenceExpr [.noAttrs, .leaf (.symbol "&" q), .leaf (.word "mut" r), t])
  | chain {e : Bool} {p : Precedence} {t : Tree} (h : Plain (.leading e p) t) : Plain (.chain e p) t
  | binary {e e' : Bool} {p q base : Precedence} {op : String} {left right : Tree} {pos : Pos} (hleft : Plain (.chain e p) left)
      (hright : Plain (.chain e' q) right) (hop : (op, base) ∈ binaryOperators) (hp : base.rank ≤ p.rank)
      (hcompare : base = .compare → base.rank < p.rank) (hq : base.rank < q.rank) (hassign : base ≠ .assign) :
      Plain (.chain e base) (.node .binaryExpr [.noAttrs, left, .leaf (.symbol op pos), right])
  -- Whole expressions
  | cast {e n : Bool} {t type : Tree} {a : Pos} (h : Plain (.operand e n) t) (htype : ReadsType type) (hidle : options.Idle name type) :
      Plain (.value e) (.node .castExpr [.noAttrs, t, .leaf (.word "as" a), type])
  | value {e : Bool} {p : Precedence} {t : Tree} (h : Plain (.chain e p) t) : Plain (.value e) t
  | assign {e e' : Bool} {p q : Precedence} {left right : Tree} {pos : Pos} (hleft : Plain (.chain e p) left)
      (hright : Plain (.chain e' q) right) : Plain (.value e) (.node .assignExpr [.noAttrs, left, .leaf (.symbol "=" pos), right])
  | update {e e' : Bool} {p q : Precedence} {op : String} {left right : Tree} {pos : Pos} (hleft : Plain (.chain e p) left)
      (hright : Plain (.chain e' q) right) (hop : (op, .assign) ∈ binaryOperators) :
      Plain (.value e) (.node .binaryExpr [.noAttrs, left, .leaf (.symbol op pos), right])
  | returns {r : Pos} : Plain (.value true) (.node .returnExpr [.noAttrs, .leaf (.word "return" r), .absent])
  | returnsValue {e : Bool} {t : Tree} {r : Pos} (h : Plain (.value e) t) :
      Plain (.value true) (.node .returnExpr [.noAttrs, .leaf (.word "return" r), t])
  | breaks {label : Tree} {b : Pos} (hlabel : MaybeLabel label) :
      Plain (.value true) (.node .breakExpr [.noAttrs, .leaf (.word "break" b), label, .absent])
  | breaksValue {label t : Tree} {b : Pos} (h : Plain (.value true) t) (hlabel : MaybeLabel label)
      (hcolon : label.isPresent = true → NoColon (options.wrapTree name t)) :
      Plain (.value true) (.node .breakExpr [.noAttrs, .leaf (.word "break" b), label, t])
  | noArgs : Plain .args (.list [])
  | lastArg {e : Bool} {t : Tree} (h : Plain (.value e) t) : Plain .args (.list [t])
  | moreArgs {e : Bool} {t : Tree} {p : Pos} {ts : List Tree} (h : Plain (.value e) t) (hmore : Plain .args (.list ts)) :
      Plain .args (.list (t :: .leaf (.symbol "," p) :: ts))
  -- Statements
  | namePattern {t : Tree} (h : NamePattern t) : Plain .pattern t
  | typePattern {t type : Tree} {c : Pos} (h : NamePattern t) (htype : ReadsType type) (hidle : options.Idle name type) :
      Plain .pattern (.node .typePat [.noAttrs, t, .leaf (.symbol ":" c), type])
  | binding {e : Bool} {pat t : Tree} {l eq semi : Pos} (hpat : Plain .pattern pat) (h : Plain (.value e) t) :
      Plain .stmt (.node .letStmt [.noAttrs, .leaf (.word "let" l), pat, .node .letInit [.leaf (.symbol "=" eq), t, .absent],
        .leaf (.symbol ";" semi)])
  | valueStmt {t : Tree} {semi : Pos} (h : Plain (.value true) t) :
      Plain .stmt (.node .exprStmt [t, .leaf (.symbol ";" semi)])
  | blockStmt {t : Tree} (h : Plain .blockLike t) : Plain .stmt (.node .exprStmt [t, .absent])
  | macroStmt {path : Tree} {read : List Tree} {written : List TokenTree} {d : Delimiter} {o c b semi : Pos} (hpath : Names path)
      (hexprs : isExpressionMacro path = true) (hargs : Plain .args (.list read)) (hd : d ≠ .brace) :
      Plain .stmt (.node .macroStmt [.noAttrs, macroOf path (.group d o [.arguments written read] c) b, .leaf (.symbol ";" semi)])
  | noStmts : Plain .stmts (.node .stmts [])
  | moreStmts {s : Tree} {ss : List Tree} (h : Plain .stmt s) (hmore : Plain .stmts (.node .stmts ss)) :
      Plain .stmts (.node .stmts (s :: ss))
  | lastValue {t : Tree} (h : Plain (.value true) t) : Plain .stmts (.node .stmts [.node .exprStmt [t, .absent]])
  | lastMacro {path : Tree} {read : List Tree} {written : List TokenTree} {d : Delimiter} {o c b : Pos} (hpath : Names path)
      (hexprs : isExpressionMacro path = true) (hargs : Plain .args (.list read)) (hd : d ≠ .brace) :
      Plain .stmts (.node .stmts [.node .exprStmt [.node .macroExpr [.noAttrs,
        macroOf path (.group d o [.arguments written read] c) b], .absent]])
  -- Blocks
  | branch {e : Bool} {p : Precedence} {cond : Tree} {ss : List Tree} {i o c : Pos} (hcond : Plain (.chain e p) cond)
      (h : Plain .stmts (.node .stmts ss)) :
      Plain .branch (.node .ifExpr [.noAttrs, .leaf (.word "if" i), cond, blockOf ss o c, .absent])
  | branchElse {e : Bool} {p : Precedence} {cond : Tree} {ss ss' : List Tree} {i j o c o' c' : Pos} (hcond : Plain (.chain e p) cond)
      (h : Plain .stmts (.node .stmts ss)) (h' : Plain .stmts (.node .stmts ss')) :
      Plain .branch (.node .ifExpr [.noAttrs, .leaf (.word "if" i), cond, blockOf ss o c,
        .node .elseBranch [.leaf (.word "else" j), .node .blockExpr [.noAttrs, .absent, blockOf ss' o' c']]])
  | branchNext {e : Bool} {p : Precedence} {cond t : Tree} {ss : List Tree} {i j o c : Pos} (hcond : Plain (.chain e p) cond)
      (h : Plain .stmts (.node .stmts ss)) (ht : Plain .branch t) :
      Plain .branch (.node .ifExpr [.noAttrs, .leaf (.word "if" i), cond, blockOf ss o c, .node .elseBranch [.leaf (.word "else" j), t]])
  | branches {t : Tree} (h : Plain .branch t) : Plain .blockLike t
  | block {ss : List Tree} {o c : Pos} (h : Plain .stmts (.node .stmts ss)) :
      Plain .blockLike (.node .blockExpr [.noAttrs, .absent, blockOf ss o c])
  | loop {ss : List Tree} {l o c : Pos} (h : Plain .stmts (.node .stmts ss)) :
      Plain .blockLike (.node .loopExpr [.noAttrs, .absent, .leaf (.word "loop" l), blockOf ss o c])
  | labelledLoop {ss : List Tree} {label : String} {l o c p q : Pos} (h : Plain .stmts (.node .stmts ss)) :
      Plain .blockLike (.node .loopExpr [.noAttrs, labelOf label p q, .leaf (.word "loop" l), blockOf ss o c])
  | whileLoop {e : Bool} {p : Precedence} {cond : Tree} {ss : List Tree} {w o c : Pos} (hcond : Plain (.chain e p) cond)
      (h : Plain .stmts (.node .stmts ss)) :
      Plain .blockLike (.node .whileExpr [.noAttrs, .absent, .leaf (.word "while" w), cond, blockOf ss o c])

end

variable {options : CallOptions} {name : String} {t : Tree}

/-! ### Trees that stay -/

theorem isAsked_of_kind {k : Kind} {cs : List Tree} (hk : isCallKind k = false) : isAsked (.node k cs) = false :=
  isAsked_of_no_site (show site? "" (.node k cs) = none from site?_of_kind hk)

theorem visits_of_isOpen {k : Kind} {cs : List Tree} (hk : CallOptions.isOpen k = true) :
    visits (.node k cs) = Calls.joined (cs.map visits) := by
  have hcall : isCallKind k = false := by
    simp only [CallOptions.isOpen, Bool.and_eq_true, Bool.not_eq_true'] at hk
    exact hk.1.2
  rw [visits_eq, isAsked_of_kind hcall, CallOptions.parts_of_isOpen hk]
  rfl

theorem visits_group (d : Delimiter) (o c : Pos) (cs : List Tree) : visits (.group d o cs c) = Calls.joined (cs.map visits) := by
  rw [visits_eq]
  rfl

theorem visits_arguments (written : List TokenTree) (read : List Tree) :
    visits (.arguments written read) = Calls.joined (read.map visits) := by
  rw [visits_eq]
  rfl

theorem visits_absent : visits .absent = .nil := visits_of_isOpen rfl

theorem visits_noAttrs : visits .noAttrs = .nil := visits_of_isOpen rfl

@[simp]
theorem wrapTree_absent : options.wrapTree name .absent = .absent := options.wrapTree_of_isOpen name rfl

@[simp]
theorem wrapTree_noAttrs : options.wrapTree name .noAttrs = .noAttrs := options.wrapTree_of_isOpen name rfl

namespace CallOptions.Idle

theorem leaf (l : Leaf) : options.Idle name (.leaf l) := ⟨by simp, by simp [visits_leaf, Calls.list]⟩

theorem absent : options.Idle name .absent := ⟨by simp, by simp [visits_absent, Calls.list]⟩

theorem noAttrs : options.Idle name .noAttrs := ⟨by simp, by simp [visits_noAttrs, Calls.list]⟩

theorem node {k : Kind} {cs : List Tree} (hk : CallOptions.isOpen k = true) (h : ∀ c ∈ cs, options.Idle name c) :
    options.Idle name (.node k cs) where
  kept := by
    rw [wrapTree_of_isOpen _ _ hk]
    exact congrArg _ ((List.map_congr_left fun c hc => (h c hc).kept).trans (List.map_id cs))
  calls := by
    rw [visits_of_isOpen hk]
    intro c hc
    obtain ⟨calls, hcalls, hc⟩ := Calls.mem_joined.mp hc
    obtain ⟨u, hu, rfl⟩ := List.mem_map.mp hcalls
    exact (h u hu).calls c hc

theorem closed {k : Kind} {cs : List Tree} (hk : isClosed k = true) : options.Idle name (.node k cs) where
  kept := by rw [wrapTree_of_kind _ _ (isCallKind_of_closed hk), wrapInside_of_exchange (.closed cs hk)]
  calls := by
    have hexchange : Exchange (.node k cs) [] [] (.node k cs) := .closed cs hk
    rw [visits_eq, isAsked_of_kind (isCallKind_of_closed hk), hexchange.parts_eq]
    simp [Calls.list]

theorem argued {inExpr : Bool} {args : Tree} (h : Argued inExpr args) : options.Idle name args := by
  cases h <;> exact closed rfl

theorem segment {inExpr : Bool} (h : Segment inExpr t) : options.Idle name t := by
  cases h with
  | plain => exact node rfl (by simp [leaf, absent])
  | argued hn h => exact node rfl (by simp [leaf, argued h])

theorem segmented {inExpr : Bool} {more : List Tree} (h : Segmented inExpr more) : ∀ t ∈ more, options.Idle name t := by
  induction h with
  | nil => simp
  | cons hs h ih =>
    simp only [List.forall_mem_cons]
    exact ⟨leaf _, segment hs, ih⟩

theorem path {inExpr : Bool} {path : Tree} (h : Generic inExpr path) : options.Idle name path := by
  have hlist {s : Tree} {more : List Tree} (hs : options.Idle name s) (h : Segmented inExpr more) :
      options.Idle name (.list (s :: more)) := node rfl (List.forall_mem_cons.mpr ⟨hs, segmented h⟩)
  have hplain (n : String) (p : Pos) : options.Idle name (segmentOf n p) := node rfl (by simp [leaf, absent])
  cases h with
  | start hn hcrate h => exact node rfl (by simp [hlist (hplain _ _) h, absent])
  | argued hn hargs h => exact node rfl (by simp [hlist (segment (.argued hn hargs)) h, absent])
  | root hs h => exact node rfl (by simp [hlist (segment hs) h, leaf])

theorem namePattern (h : NamePattern t) : options.Idle name t := by
  cases h <;> exact node rfl (by simp [leaf, absent, noAttrs])

end CallOptions.Idle

/-! ### Wrapping part by part -/

/-- The accepted calls of a tree are operands after the calls inside them were wrapped. -/
def CallOptions.Ready (options : CallOptions) (name : String) (t : Tree) : Prop :=
  ∀ c ∈ (visits t).list, options.acceptsCall name c = true → ∃ e n, Operand e n (options.wrapInside name c)

namespace CallOptions.Ready

theorem of_idle (h : options.Idle name t) : options.Ready name t := fun c hc ha => by
  rw [h.calls c hc] at ha
  cases ha

theorem node {k : Kind} {cs : List Tree} (hk : CallOptions.isOpen k = true) (h : ∀ c ∈ cs, options.Ready name c) :
    options.Ready name (.node k cs) := by
  intro c hc
  rw [visits_of_isOpen hk] at hc
  obtain ⟨calls, hcalls, hc⟩ := Calls.mem_joined.mp hc
  obtain ⟨u, hu, rfl⟩ := List.mem_map.mp hcalls
  exact h u hu c hc

theorem group {d : Delimiter} {o c : Pos} {cs : List Tree} (h : ∀ t ∈ cs, options.Ready name t) :
    options.Ready name (.group d o cs c) := by
  intro call hcall
  rw [visits_group] at hcall
  obtain ⟨calls, hcalls, hcall⟩ := Calls.mem_joined.mp hcall
  obtain ⟨u, hu, rfl⟩ := List.mem_map.mp hcalls
  exact h u hu call hcall

theorem arguments {written : List TokenTree} {read : List Tree} (h : ∀ t ∈ read, options.Ready name t) :
    options.Ready name (.arguments written read) := by
  intro call hcall
  rw [visits_arguments] at hcall
  obtain ⟨calls, hcalls, hcall⟩ := Calls.mem_joined.mp hcall
  obtain ⟨u, hu, rfl⟩ := List.mem_map.mp hcalls
  exact h u hu call hcall

theorem leaf (l : Leaf) : options.Ready name (.leaf l) := of_idle (.leaf l)

theorem absent : options.Ready name .absent := of_idle .absent

theorem noAttrs : options.Ready name .noAttrs := of_idle .noAttrs

theorem of_part {p : Tree} (h : options.Ready name t) (hp : p ∈ parts t) : options.Ready name p :=
  fun c hc => h c (mem_visits_of_parts hp hc)

/-- A call is ready if its parts are and it is an operand itself. -/
theorem of_parts {e n : Bool} (hinside : Operand e n (options.wrapInside name t)) (h : ∀ p ∈ parts t, options.Ready name p) :
    options.Ready name t := by
  intro c hc ha
  rw [visits_list] at hc
  rcases List.mem_append.mp hc with hc | hc
  · split at hc
    · rw [List.mem_singleton.mp hc]
      exact ⟨e, n, hinside⟩
    · cases hc
  · obtain ⟨p, hp, hc⟩ := List.mem_flatMap.mp hc
    exact h p hp c hc ha

end CallOptions.Ready

/-- What wrapping makes of a part: it reads again, and so do the calls in it and the part without its own wrapper. -/
structure CallOptions.Rereads (options : CallOptions) (name : String) (part : Part) (t : Tree) : Prop where
  reads : part.Reads (options.wrapTree name t)
  inside : part.Reads (options.wrapInside name t)
  ready : options.Ready name t

theorem CallOptions.Idle.inside (h : options.Idle name t) : options.wrapInside name t = t := by
  have hkept := h.kept
  rw [options.wrapTree_eq] at hkept
  split at hkept
  · rename_i site hsite
    obtain ⟨hasked, hof⟩ := isAsked_of_site hsite
    have hmem : t ∈ (visits t).list := by
      rw [visits_list, hasked]
      exact List.mem_append.mpr (.inl (List.mem_singleton.mpr rfl))
    have hacc : options.accepts site.target = false := by
      simpa [CallOptions.acceptsCall, hof] using h.calls t hmem
    rw [if_neg (by simp [hacc])] at hkept
    exact hkept
  · exact hkept

theorem operand_late {e n e' n' : Bool} (h : Operand e n t) (he : e' = true → e = true) (hn : n' = false → n = false) :
    Operand e' n' t := ⟨h.base, h.shape, fun h' => h.named (hn h'), fun h' => h.early (he h')⟩

namespace CallOptions.Rereads

theorem of_idle {part : Part} (h : part.Reads t) (hidle : options.Idle name t) : options.Rereads name part t where
  reads := by rwa [hidle.kept]
  inside := by rwa [hidle.inside]
  ready := .of_idle hidle

/-- A node whose children are all visited, and which is no call. -/
theorem of_isOpen {part : Part} {k : Kind} {cs : List Tree} (hk : CallOptions.isOpen k = true)
    (hreads : part.Reads (.node k (cs.map (options.wrapTree name)))) (hready : ∀ c ∈ cs, options.Ready name c) :
    options.Rereads name part (.node k cs) where
  reads := by rwa [options.wrapTree_of_isOpen name hk]
  inside := by rwa [CallOptions.wrapInside_of_exchange (CallOptions.exchange_of_isOpen hk _)]
  ready := .node hk hready

/-- A call: it is wrapped as a whole or not. -/
theorem of_call {e : Bool} (hw : Generic true options.wrapper) (hinside : Operand e false (options.wrapInside name t))
    (hready : ∀ p ∈ parts t, options.Ready name p) : options.Rereads name (.operand e false) t where
  reads := by
    rw [options.wrapTree_eq]
    split
    · rename_i site _
      split
      · exact operand_late (operand_wrapped hw site hinside.leading.chained.valued) (fun _ => rfl) id
      · exact hinside
    · exact hinside
  inside := hinside
  ready := .of_parts hinside hready

/-- A part that is also one of another sort. -/
theorem other {part part' : Part} (h : options.Rereads name part t) (hreads : ∀ {t}, part.Reads t → part'.Reads t) :
    options.Rereads name part' t := ⟨hreads h.reads, hreads h.inside, h.ready⟩

section
variable {e n : Bool} {base callee args : Tree} {o c dot p : Pos} {m : String}

theorem call (hw : Generic true options.wrapper) (hcallee : options.Rereads name (.operand e false) callee)
    (hargs : options.Rereads name .args args)
    (hown : runtimeCall? (.node .callExpr [.noAttrs, callee, .group .paren o [args] c]) = none) :
    options.Rereads name (.operand e false) (.node .callExpr [.noAttrs, callee, .group .paren o [args] c]) := by
  obtain ⟨as, has, hseparated, hsettled⟩ := hargs.reads
  have hinside := options.wrapInside_own name (.inl rfl) hown
  have hexchange : Exchange (.node .callExpr [.noAttrs, callee, .group .paren o [args] c])
      [.noAttrs, callee, .group .paren o [args] c] [.noAttrs, callee, .group .paren o [args] c]
        (.node .callExpr [.noAttrs, callee, .group .paren o [args] c]) := by
    refine .children rfl rfl ?_ (fun h => by cases h) _
    rw [generatedCall?_eq, withoutAwait_of_kind (by decide), hown]
  refine of_call hw ?_ ?_
  · rw [hinside]
    simp only [List.map_cons, List.map_nil, wrapTree_noAttrs, CallOptions.wrapTree_group, has]
    exact hcallee.reads.call hseparated hsettled
  · rw [hexchange.parts_eq]
    simp only [List.forall_mem_cons, List.not_mem_nil, false_imp_iff, implies_true, and_true]
    exact ⟨.noAttrs, hcallee.ready, .group (by simpa using hargs.ready)⟩

theorem method {turbofish : Tree} (hw : Generic true options.wrapper) (hbase : options.Rereads name (.operand e n) base)
    (hm : Ahead.keywords.contains m = false) (hturbofish : turbofish = .absent ∨ Argued true turbofish)
    (hargs : options.Rereads name .args args) :
    options.Rereads name (.operand e false) (.node .methodCallExpr [.noAttrs, base, .leaf (.symbol "." dot), .leaf (.word m p),
      turbofish, .group .paren o [args] c]) := by
  obtain ⟨as, has, hseparated, hsettled⟩ := hargs.reads
  have hidle : options.Idle name turbofish := by
    rcases hturbofish with rfl | h
    · exact .absent
    · exact .argued h
  have hinside := options.wrapInside_own name (.inr rfl) (show runtimeCall? (.node .methodCallExpr [.noAttrs, base,
    .leaf (.symbol "." dot), .leaf (.word m p), turbofish, .group .paren o [args] c]) = none from rfl)
  have hexchange : Exchange (.node .methodCallExpr [.noAttrs, base, .leaf (.symbol "." dot), .leaf (.word m p), turbofish,
      .group .paren o [args] c]) [.noAttrs, base, .leaf (.symbol "." dot), .leaf (.word m p), turbofish, .group .paren o [args] c]
        [.noAttrs, base, .leaf (.symbol "." dot), .leaf (.word m p), turbofish, .group .paren o [args] c] _ :=
    .children rfl rfl rfl (fun h => by cases h) _
  refine of_call hw ?_ ?_
  · rw [hinside]
    simp only [List.map_cons, List.map_nil, wrapTree_noAttrs, hidle.kept, CallOptions.wrapTree_group, CallOptions.wrapTree_leaf, has]
    exact hbase.reads.methodOf hm hturbofish hseparated hsettled
  · rw [hexchange.parts_eq]
    simp only [List.forall_mem_cons, List.not_mem_nil, false_imp_iff, implies_true, and_true]
    exact ⟨.noAttrs, hbase.ready, .leaf _, .leaf _, .of_idle hidle, .group (by simpa using hargs.ready)⟩

theorem await (hw : Generic true options.wrapper) (hbase : options.Rereads name (.operand e n) base) (hown : runtimeCall? base = none) :
    options.Rereads name (.operand e false) (.node .awaitExpr [.noAttrs, base, .leaf (.symbol "." dot), .leaf (.word "await" p)]) := by
  have hgen : generatedCall? (.node .awaitExpr [.noAttrs, base, .leaf (.symbol "." dot), .leaf (.word "await" p)]) = none := hown
  cases hcall : callOf? (.node .awaitExpr [.noAttrs, base, .leaf (.symbol "." dot), .leaf (.word "await" p)]) with
  | none =>
    have hexchange (new : List Tree) : Exchange (.node .awaitExpr [.noAttrs, base, .leaf (.symbol "." dot), .leaf (.word "await" p)])
        [.noAttrs, base, .leaf (.symbol "." dot), .leaf (.word "await" p)] new (.node .awaitExpr new) :=
      .children rfl rfl hgen (fun _ => hcall) new
    refine of_call hw ?_ ?_
    · rw [CallOptions.wrapInside_of_exchange (hexchange _)]
      simp only [List.map_cons, List.map_nil, wrapTree_noAttrs, CallOptions.wrapTree_leaf]
      exact hbase.reads.await
    · rw [(hexchange []).parts_eq]
      simp only [List.forall_mem_cons, List.not_mem_nil, false_imp_iff, implies_true, and_true]
      exact ⟨.noAttrs, hbase.ready, .leaf _, .leaf _⟩
  | some target =>
    -- The parts of an awaited call are those of the call, which is not wrapped by itself.
    obtain ⟨k, cs, rfl, hk⟩ : ∃ k cs, base = .node k cs ∧ (k = .callExpr ∨ k = .methodCallExpr) := by
      have hof : (Target.ofCall? base).isSome = true := by
        cases hof : Target.ofCall? base with
        | none => simp [callOf?, hof] at hcall
        | some _ => rfl
      unfold Target.ofCall? at hof
      split at hof
      · exact ⟨_, _, rfl, .inl rfl⟩
      · exact ⟨_, _, rfl, .inr rfl⟩
      · cases hof
    have hexchange (new : List Tree) : Exchange (.node .awaitExpr [.noAttrs, .node k cs, .leaf (.symbol "." dot), .leaf (.word "await" p)])
        cs new (.node .awaitExpr [.noAttrs, .node k new, .leaf (.symbol "." dot), .leaf (.word "await" p)]) :=
      .awaited hgen (by simp [hcall]) new
    have hcall : Exchange (.node k cs) cs cs (.node k cs) := by
      refine .children ?_ ?_ ?_ ?_ cs
      · exact hasOwnOrder_of_kind (by rcases hk with rfl | rfl <;> rfl)
      · rcases hk with rfl | rfl <;> rfl
      · rw [generatedCall?_eq, withoutAwait_of_kind (by rcases hk with rfl | rfl <;> decide), hown]
      · rcases hk with rfl | rfl <;> exact fun h => by cases h
    have hinside : Operand e n _ := hbase.inside
    rw [options.wrapInside_own name hk hown] at hinside
    refine of_call hw ?_ ?_
    · rw [CallOptions.wrapInside_of_exchange (hexchange _)]
      exact hinside.await
    · rw [(hexchange []).parts_eq]
      intro q hq
      rw [← hcall.parts_eq] at hq
      exact hbase.ready.of_part hq

end

section
variable {e n : Bool} {path : Tree} {read ss : List Tree} {written : List TokenTree} {d : Delimiter} {o c b : Pos}

theorem macroArgs (hexprs : isExpressionMacro path = true) (hargs : options.Rereads name .args (.list read))
    (written : List TokenTree) (d : Delimiter) (o c : Pos) :
    MacroArgs path (options.wrapTree name (.group d o [.arguments written read] c)) := by
  obtain ⟨as, has, hseparated, hsettled⟩ := hargs.reads
  rw [Tree.list, options.wrapTree_of_isOpen name rfl] at has
  cases has
  have hwritten : (read.map (options.wrapTree name)).flatMap Tree.written = (read.map (options.wrapTree name)).flatMap Tree.toTokens :=
    List.flatMap_congr fun a ha => congrArg Tree.toTokens (hsettled a ha)
  rw [CallOptions.wrapTree_group, List.map_singleton, CallOptions.wrapTree_arguments, hwritten]
  exact .read hexprs hseparated

theorem wrapTree_macroOf (hpath : Names path) (args : Tree) :
    options.wrapTree name (macroOf path args b) = macroOf path (options.wrapTree name args) b := by
  rw [macroOf, options.wrapTree_of_isOpen name rfl]
  simp [(Idle.path (hpath.generic true)).kept, macroOf]

theorem ready_macroOf (hpath : Names path) (hargs : options.Rereads name .args (.list read)) :
    options.Ready name (macroOf path (.group d o [.arguments written read] c) b) := by
  have hread : ∀ t ∈ read, options.Ready name t := fun t ht =>
    hargs.ready.of_part (CallOptions.parts_of_isOpen (k := .list) rfl ▸ ht)
  exact .node rfl (by simp [Ready.of_idle (.path (hpath.generic true)), Ready.leaf, Ready.group, Ready.arguments hread])

theorem wrapTree_blockOf : options.wrapTree name (blockOf ss o c) = blockOf (ss.map (options.wrapTree name)) o c := by
  rw [blockOf, options.wrapTree_of_isOpen name rfl]
  simp [options.wrapTree_of_isOpen name (show isOpen .stmts = true from rfl), blockOf]

end

theorem args {ts : List Tree} (h : options.Rereads name .args (.list ts)) :
    Separated (ts.map (options.wrapTree name)) ∧ ∀ t ∈ ts.map (options.wrapTree name), Settled t := by
  obtain ⟨as, has, h⟩ := h.reads
  rw [Tree.list, options.wrapTree_of_isOpen name rfl] at has
  cases has
  exact h

theorem stmts {ss : List Tree} (h : options.Rereads name .stmts (.node .stmts ss)) :
    Stmts (ss.map (options.wrapTree name)) ∧ ∀ s ∈ ss.map (options.wrapTree name), Settled s := by
  obtain ⟨ss', hss, h⟩ := h.reads
  rw [options.wrapTree_of_isOpen name rfl] at hss
  cases hss
  exact h

theorem ready_blockOf {ss : List Tree} {o c : Pos} (h : options.Rereads name .stmts (.node .stmts ss)) :
    options.Ready name (blockOf ss o c) := .node rfl (by simp [Ready.noAttrs, Ready.group, h.ready])

theorem idle_label {label : Tree} (h : MaybeLabel label) : options.Idle name label := by
  rcases h with rfl | ⟨l, q, rfl⟩
  · exact .absent
  · exact .leaf _

theorem idle_labelOf (l : String) (p q : Pos) : options.Idle name (labelOf l p q) := .node rfl (by simp [Idle.leaf])

theorem wrapTree_exprStmt (u v : Tree) : options.wrapTree name (.node .exprStmt [u, v]) =
    .node .exprStmt [options.wrapTree name u, options.wrapTree name v] := options.wrapTree_of_isOpen name rfl

theorem wrapTree_macroExpr {path args : Tree} {b : Pos} (hpath : Names path) : options.wrapTree name (.node .macroExpr [.noAttrs, macroOf path args b]) =
    .node .macroExpr [.noAttrs, macroOf path (options.wrapTree name args) b] := by
  rw [options.wrapTree_of_isOpen name rfl]
  simp [wrapTree_macroOf hpath]

theorem isBraceCall_wrapped {path : Tree} {read : List Tree} {written : List TokenTree} {d : Delimiter} {o c b : Pos} (hd : d ≠ .brace) :
    isBraceCall (macroOf path (options.wrapTree name (.group d o [.arguments written read] c)) b) = false := by
  rw [CallOptions.wrapTree_group]
  cases d
  · rfl
  · rfl
  · exact absurd rfl hd

theorem whileLoop {e : Bool} {p : Precedence} {cond : Tree} {ss : List Tree} {w o c : Pos}
    (hcond : options.Rereads name (.chain e p) cond) (h : options.Rereads name .stmts (.node .stmts ss)) :
    options.Rereads name .blockLike (.node .whileExpr [.noAttrs, .absent, .leaf (.word "while" w), cond, blockOf ss o c]) := by
  obtain ⟨hstmts, hsettled⟩ := h.stmts
  have hexchange (cond' stmts' : Tree) : Exchange (.node .whileExpr [.noAttrs, .absent, .leaf (.word "while" w), cond, blockOf ss o c])
      [.noAttrs, .noAttrs, cond, .node .stmts ss] [.noAttrs, .noAttrs, cond', stmts']
        (.node .whileExpr [.noAttrs, .absent, .leaf (.word "while" w), cond', .node .block [.group .brace o [.noAttrs, stmts'] c]]) :=
    .whileLoop ..
  have hinside : options.wrapInside name (.node .whileExpr [.noAttrs, .absent, .leaf (.word "while" w), cond, blockOf ss o c]) =
      .node .whileExpr [.noAttrs, .absent, .leaf (.word "while" w), options.wrapTree name cond,
        blockOf (ss.map (options.wrapTree name)) o c] := by
    refine @CallOptions.wrapInside_of_exchange _ _ _ _ [.noAttrs, .noAttrs, cond, .node .stmts ss] ?_
    simpa [options.wrapTree_of_isOpen name (show isOpen .stmts = true from rfl), blockOf] using
      hexchange (options.wrapTree name cond) (.node .stmts (ss.map (options.wrapTree name)))
  have hwrap : options.wrapTree name (.node .whileExpr [.noAttrs, .absent, .leaf (.word "while" w), cond, blockOf ss o c]) = _ :=
    (options.wrapTree_of_kind name rfl).trans hinside
  have hlike : BlockLike (.node .whileExpr [.noAttrs, .absent, .leaf (.word "while" w), options.wrapTree name cond,
      blockOf (ss.map (options.wrapTree name)) o c]) := hstmts.whileLike hsettled hcond.reads
  refine ⟨hwrap ▸ hlike, hinside ▸ hlike, ?_⟩
  intro call hcall
  rw [visits_list, isAsked_of_kind rfl,
    (hexchange cond (.node .stmts ss)).parts_eq] at hcall
  obtain ⟨q, hq, hmem⟩ := List.mem_flatMap.mp (show call ∈ List.flatMap _ _ from hcall)
  simp only [List.mem_cons, List.not_mem_nil, or_false] at hq
  rcases hq with rfl | rfl | rfl | rfl
  · exact Ready.noAttrs call hmem
  · exact Ready.noAttrs call hmem
  · exact hcond.ready call hmem
  · exact h.ready call hmem

/-- Plain code reads again after its calls were wrapped. -/
theorem of_plain (hw : Generic true options.wrapper) {part : Part} (h : Plain options name part t) : options.Rereads name part t := by
  induction h with
  | idle h hidle => exact of_idle h hidle
  | late _ ih => exact ih.other fun h => operand_late h (fun _ => rfl) id
  | unnamed _ ih => exact ih.other fun h => operand_late h id fun _ => rfl
  | literal l p => exact of_idle (operand_literal l p) (.node rfl (by simp [Idle.leaf, Idle.noAttrs]))
  | path h => exact of_idle (operand_path h) (.node rfl (by simp [Idle.path h, Idle.noAttrs]))
  | call _ _ hown ihcallee ihargs => exact ihcallee.call hw ihargs hown
  | method _ hm hturbofish _ ihbase ihargs => exact ihbase.method hw hm hturbofish ihargs
  | field _ hm ih => exact of_isOpen rfl (by simpa [Part.Reads] using ih.reads.field hm) (by simp [ih.ready, Ready.noAttrs, Ready.leaf])
  | index _ _ ih ihkey =>
    refine of_isOpen rfl ?_ (by simp [ih.ready, Ready.noAttrs, Ready.group, ihkey.ready])
    simpa [Part.Reads] using ih.reads.index ihkey.reads.value.reads ihkey.reads.settled
  | question _ ih => exact of_isOpen rfl (by simpa [Part.Reads] using ih.reads.try_) (by simp [ih.ready, Ready.noAttrs, Ready.leaf])
  | await _ hown ih => exact ih.await hw hown
  | paren _ ih =>
    refine of_isOpen rfl ?_ (by simp [Ready.noAttrs, Ready.group, ih.ready])
    simpa [Part.Reads] using operand_paren ih.reads.value.reads ih.reads.taken ih.reads.settled
  | @macroCall path read written d o c b hpath hexprs _ ih =>
    refine of_isOpen rfl ?_ (by simp [Ready.noAttrs, ready_macroOf hpath ih])
    simpa [Part.Reads, wrapTree_macroOf hpath] using operand_macroOf hpath (ih.macroArgs hexprs written d o c)
  | blockOperand _ ih => exact ih.other BlockLike.operand
  | leading _ ih => exact ih.other Operand.leading
  | unary _ hop ih =>
    exact of_isOpen rfl (by simpa [Part.Reads] using ih.reads.unary hop) (by simp [ih.ready, Ready.noAttrs, Ready.leaf])
  | reference _ ih =>
    exact of_isOpen rfl (by simpa [Part.Reads] using ih.reads.reference) (by simp [ih.ready, Ready.noAttrs, Ready.absent, Ready.leaf])
  | mutable _ ih => exact of_isOpen rfl (by simpa [Part.Reads] using ih.reads.mutable) (by simp [ih.ready, Ready.noAttrs, Ready.leaf])
  | chain _ ih => exact ih.other Leading.chained
  | binary _ _ hop hp hcompare hq hassign ihleft ihright =>
    refine of_isOpen rfl ?_ (by simp [ihleft.ready, ihright.ready, Ready.noAttrs, Ready.leaf])
    simpa [Part.Reads] using ihleft.reads.binary ihright.reads hop hp hcompare hq hassign
  | value _ ih => exact ih.other Chained.valued
  | cast _ htype hidle ih =>
    refine of_isOpen rfl ?_ (by simp [ih.ready, Ready.of_idle hidle, Ready.noAttrs, Ready.leaf])
    simpa [Part.Reads, hidle.kept] using ih.reads.cast htype
  | assign _ _ ihleft ihright =>
    refine of_isOpen rfl ?_ (by simp [ihleft.ready, ihright.ready, Ready.noAttrs, Ready.leaf])
    simpa [Part.Reads] using ihleft.reads.assign ihright.reads
  | update _ _ hop ihleft ihright =>
    refine of_isOpen rfl ?_ (by simp [ihleft.ready, ihright.ready, Ready.noAttrs, Ready.leaf])
    simpa [Part.Reads] using ihleft.reads.update ihright.reads hop
  | returns => exact of_idle valued_return (.node rfl (by simp [Idle.leaf, Idle.noAttrs, Idle.absent]))
  | returnsValue _ ih => exact of_isOpen rfl (by simpa [Part.Reads] using ih.reads.return_) (by simp [ih.ready, Ready.noAttrs, Ready.leaf])
  | breaks hlabel => exact of_idle (valued_break hlabel) (.node rfl (by simp [Idle.leaf, Idle.noAttrs, Idle.absent, idle_label hlabel]))
  | breaksValue _ hlabel hcolon ih =>
    refine of_isOpen rfl ?_ (by simp [ih.ready, Ready.noAttrs, Ready.leaf, Ready.of_idle (idle_label hlabel)])
    simpa [Part.Reads, (idle_label hlabel).kept] using ih.reads.break_ hlabel hcolon
  | noArgs => exact of_idle ⟨_, rfl, .nil, by simp⟩ (.node rfl (by simp))
  | lastArg _ ih =>
    refine of_isOpen rfl ?_ (by simp [ih.ready])
    exact ⟨_, rfl, .last ih.reads.value.reads ih.reads.taken, by simpa using ih.reads.settled⟩
  | moreArgs _ _ ih ihmore =>
    obtain ⟨hseparated, hsettled⟩ := ihmore.args
    refine of_isOpen rfl ?_ ?_
    · refine ⟨_, rfl, ?_, ?_⟩
      · simpa using Separated.cons ih.reads.value.reads ih.reads.taken hseparated
      · simpa [settled_leaf, ih.reads.settled] using hsettled
    · simp only [List.forall_mem_cons]
      exact ⟨ih.ready, .leaf _, fun t ht => ihmore.ready.of_part (CallOptions.parts_of_isOpen (k := .list) rfl ▸ ht)⟩
  | namePattern h => exact of_idle ⟨h.binds, h.settled⟩ (.namePattern h)
  | typePattern h htype hidle =>
    refine of_idle ⟨h.binds_type htype, ?_⟩ (.node rfl (by simp [Idle.noAttrs, Idle.namePattern h, Idle.leaf, hidle]))
    exact grouped_node (by simp [Grouping.partCount?]) (by simp [h.settled, htype.settled, settled_leaf, settled_noAttrs]) {}
  | @binding e pat t l eq semi _ _ ihpat ih =>
    have hinit : options.Ready name (.node .letInit [.leaf (.symbol "=" eq), t, .absent]) :=
      .node rfl (by simp [Ready.leaf, Ready.absent, ih.ready])
    refine of_isOpen rfl ?_ (by simp [ihpat.ready, Ready.noAttrs, Ready.leaf, hinit])
    simpa [Part.Reads, options.wrapTree_of_isOpen name (show isOpen .letInit = true from rfl)] using
      And.intro (Stmt.binding ihpat.reads.1 ih.reads.value.reads) (settled_letStmt ihpat.reads.2 ih.reads.settled)
  | valueStmt _ ih =>
    refine of_isOpen rfl ?_ (by simp [ih.ready, Ready.leaf])
    simpa [Part.Reads] using And.intro ih.reads.stmt (settled_exprStmt ih.reads.settled (settled_leaf _))
  | blockStmt _ ih =>
    refine of_isOpen rfl ?_ (by simp [ih.ready, Ready.absent])
    simpa [Part.Reads] using And.intro ih.reads.stmt (settled_exprStmt ih.reads.shape.settled settled_absent)
  | noStmts => exact of_idle ⟨_, rfl, .nil, by simp⟩ (.node rfl (by simp))
  | moreStmts _ _ ih ihmore =>
    obtain ⟨hstmts, hsettled⟩ := ihmore.stmts
    refine of_isOpen rfl ⟨_, rfl, ?_, ?_⟩ ?_
    · exact .cons ih.reads.1 hstmts
    · simpa [ih.reads.2] using hsettled
    · simp only [List.forall_mem_cons]
      exact ⟨ih.ready, fun t ht => ihmore.ready.of_part (CallOptions.parts_of_isOpen (k := .stmts) rfl ▸ ht)⟩
  | lastValue _ ih =>
    refine of_isOpen rfl ⟨_, rfl, ?_, ?_⟩ (List.forall_mem_singleton.mpr (.node rfl (by simp [ih.ready, Ready.absent])))
    · simpa [wrapTree_exprStmt] using ih.reads.stmts
    · simpa [wrapTree_exprStmt] using settled_exprStmt ih.reads.settled settled_absent
  | @lastMacro path read written d o c b hpath hexprs _ hd ih =>
    have hargs := ih.macroArgs hexprs written d o c
    have hmacroExpr : options.Ready name (.node .macroExpr [.noAttrs, macroOf path (.group d o [.arguments written read] c) b]) :=
      .node rfl (by simp [Ready.noAttrs, ready_macroOf hpath ih])
    refine of_isOpen rfl ⟨_, rfl, ?_, ?_⟩ (List.forall_mem_singleton.mpr (.node rfl (by simp [hmacroExpr, Ready.absent])))
    · simpa [wrapTree_exprStmt, wrapTree_macroExpr hpath] using stmts_macroOf hpath hargs (isBraceCall_wrapped hd)
    · simpa [wrapTree_exprStmt, wrapTree_macroExpr hpath] using
        settled_exprStmt (operand_macroOf hpath hargs).shape.settled settled_absent
  | @macroStmt path read written d o c b semi hpath hexprs _ hd ih =>
    have hargs := ih.macroArgs hexprs written d o c
    refine of_isOpen rfl ?_ (by simp [Ready.noAttrs, ready_macroOf hpath ih, Ready.leaf])
    have hsettled : Settled (.node .macroStmt [.noAttrs, macroOf path (options.wrapTree name (.group d o [.arguments written read] c)) b,
        .leaf (.symbol ";" semi)]) :=
      grouped_node (by simp [Grouping.partCount?]) (List.forall_mem_cons.mpr ⟨settled_noAttrs, List.forall_mem_cons.mpr
        ⟨settled_macroOf hpath hargs, List.forall_mem_singleton.mpr (settled_leaf _)⟩⟩) {}
    simpa [Part.Reads, wrapTree_macroOf hpath] using And.intro (stmt_macroOf hpath hargs (isBraceCall_wrapped hd)) hsettled
  | branch _ _ ihcond ih =>
    obtain ⟨hstmts, hsettled⟩ := ih.stmts
    refine of_isOpen rfl ?_ (by simp [ihcond.ready, ih.ready_blockOf, Ready.leaf, Ready.noAttrs, Ready.absent])
    simpa [Part.Reads, wrapTree_blockOf] using Branch.alone ihcond.reads hstmts hsettled
  | @branchElse e p cond ss ss' i j o c o' c' _ _ _ ihcond ih ih' =>
    obtain ⟨hstmts, hsettled⟩ := ih.stmts
    obtain ⟨hstmts', hsettled'⟩ := ih'.stmts
    have hother : options.Ready name (.node .elseBranch [.leaf (.word "else" j), .node .blockExpr [.noAttrs, .absent, blockOf ss' o' c']]) :=
      .node rfl (List.forall_mem_cons.mpr ⟨.leaf _, List.forall_mem_singleton.mpr
        (.node rfl (by simp [ih'.ready_blockOf, Ready.noAttrs, Ready.absent]))⟩)
    refine of_isOpen rfl ?_ (by simp [ihcond.ready, ih.ready_blockOf, Ready.leaf, Ready.noAttrs, hother])
    simpa [Part.Reads, wrapTree_blockOf, options.wrapTree_of_isOpen name (show isOpen .elseBranch = true from rfl),
      options.wrapTree_of_isOpen name (show isOpen .blockExpr = true from rfl)] using
        Branch.otherwise ihcond.reads hstmts hsettled hstmts' hsettled'
  | @branchNext e p cond t ss i j o c _ _ _ ihcond ih ihnext =>
    obtain ⟨hstmts, hsettled⟩ := ih.stmts
    have hother : options.Ready name (.node .elseBranch [.leaf (.word "else" j), t]) := .node rfl (by simp [Ready.leaf, ihnext.ready])
    refine of_isOpen rfl ?_ (by simp [ihcond.ready, ih.ready_blockOf, Ready.leaf, Ready.noAttrs, hother])
    simpa [Part.Reads, wrapTree_blockOf, options.wrapTree_of_isOpen name (show isOpen .elseBranch = true from rfl)] using
      Branch.next ihcond.reads hstmts hsettled ihnext.reads
  | branches _ ih => exact ih.other Branch.blockLike
  | block _ ih =>
    obtain ⟨hstmts, hsettled⟩ := ih.stmts
    refine of_isOpen rfl ?_ (by simp [ih.ready_blockOf, Ready.noAttrs, Ready.absent])
    simpa [Part.Reads, wrapTree_blockOf] using hstmts.blockLike hsettled
  | loop _ ih =>
    obtain ⟨hstmts, hsettled⟩ := ih.stmts
    refine of_isOpen rfl ?_ (by simp [ih.ready_blockOf, Ready.noAttrs, Ready.absent, Ready.leaf])
    simpa [Part.Reads, wrapTree_blockOf] using hstmts.loopLike hsettled
  | labelledLoop _ ih =>
    obtain ⟨hstmts, hsettled⟩ := ih.stmts
    refine of_isOpen rfl ?_ (by simp [ih.ready_blockOf, Ready.noAttrs, Ready.of_idle (idle_labelOf ..), Ready.leaf])
    simpa [Part.Reads, wrapTree_blockOf, (idle_labelOf _ _ _).kept] using hstmts.labelledLoopLike hsettled
  | whileLoop _ _ ihcond ih => exact ihcond.whileLoop ih

end CallOptions.Rereads

end CallProbe.Probe
