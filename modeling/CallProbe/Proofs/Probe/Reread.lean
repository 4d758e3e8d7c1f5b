import CallProbe.Proofs.Probe.Steps
import CallProbe.Proofs.Reading.Body
import CallProbe.Proofs.Reading.Functions

/-! # Functions that can be probed

What a plan puts into a function of common code is read as it is written, and so is the function with it. -/

namespace CallProbe.Probe

open Source Call Parse Grammar

variable {plan : Plan} {name : String} {f g : Function} {body : Tree} {ss : List Tree} {o c : Pos} {options : ProfileOptions}

/-! ### Prologues -/

theorem names_profiler {names : List String} (h : ∀ n ∈ names, Parse.IsName n) : Names (Make.path true (profilerPath names)) := by
  refine names_root (by simp [profilerPath]) (fun n hn => ?_) Pos.none
  simp only [profilerPath, List.mem_append, List.mem_cons, List.not_mem_nil, or_false] at hn
  rcases hn with (rfl | rfl) | hn
  · decide
  · decide
  · exact h n hn

/-- A callback that is a path of names is an argument. -/
theorem callbackExpr_reads {callback : Option Tree} (h : ∀ path, callback = some path → Generic true path) :
    ∃ e, callbackExpr callback = .ok e ∧ Valued false e := by
  cases callback with
  | none => exact ⟨_, rfl, (operand_path ((names_root (by simp) (by decide) Pos.none).generic true)).leading.chained.valued.late⟩
  | some path =>
    have hpath := h path rfl
    have hcast := (operand_path hpath).cast ((@names_profiler ["Callback"] (by decide)).generic false).type (a := Pos.none)
    refine ⟨_, by rw [callbackExpr, if_pos (isCallee_of_path hpath)]; rfl, ?_⟩
    exact (operand_rootCall (by simp) (by decide) Pos.none (.last hcast.value.reads hcast.taken)
      (by simpa using hcast.settled)).leading.chained.valued.late

/-- The static of a profile is a statement. -/
theorem profileItem_reads (hbelow : ∀ path, options.below = some path → Generic true path)
    (habove : ∀ path, options.above = some path → Generic true path) (name : String) :
    ∃ item, profileItem options name = .ok item ∧ Stmt (Make.itemStmt item) ∧ Settled (Make.itemStmt item) := by
  obtain ⟨below, hok, hbelow⟩ := callbackExpr_reads hbelow
  obtain ⟨above, hok', habove⟩ := callbackExpr_reads habove
  have hduration (secs subsec : String) : Valued false (Make.call (Make.rootPath ["core", "time", "Duration", "new"])
      (Make.separated [Make.literal secs, Make.literal subsec])) := by
    have hsecs := valued_literal secs
    have hsubsec := valued_literal subsec
    refine (operand_rootCall (by simp) (by decide) Pos.none
      (.cons hsecs.value.reads hsecs.taken (.last hsubsec.value.reads hsubsec.taken)) ?_).leading.chained.valued.late
    intro a ha
    simp only [List.mem_cons, List.not_mem_nil, or_false] at ha
    rcases ha with rfl | rfl | rfl
    · exact hsecs.settled
    · rfl
    · exact hsubsec.settled
  refine ⟨_, by rw [profileItem, hok, hok']; rfl, stmt_staticItem (by decide) (by simp [profilerPath]) (by decide)
    (operand_rootCall (by simp [profilerPath]) (by decide) Pos.none (separated_terminated ?_)
      (settled_terminated ?_)).leading.chained.valued⟩
  all_goals
    intro a ha
    simp only [List.mem_cons, List.not_mem_nil, or_false] at ha
    rcases ha with rfl | rfl | rfl | rfl
    · exact (valued_literal _).late
    · exact hduration _ _
    · exact hbelow
    · exact habove

theorem guardStmt_reads {maker : String} (h : Parse.IsName maker) : Stmt (guardStmt maker) ∧ Settled (guardStmt maker) := by
  have hstatic : Valued true (Make.reference profileStatic) := valued_reference (by decide)
  refine stmt_binding (namePattern_make (by decide)).binds (namePattern_make (by decide)).settled
    (operand_rootCall (by simp [profilerPath]) ?_ Pos.none (.last hstatic.value.reads hstatic.taken)
      (by simpa using hstatic.settled)).leading.chained.valued
  intro n hn
  simp only [profilerPath, List.mem_append, List.mem_cons, List.not_mem_nil, or_false] at hn
  rcases hn with (rfl | rfl) | rfl | rfl
  · decide
  · decide
  · decide
  · exact h

section
variable (hss : Stmts ss) (hsettled : ∀ s ∈ ss, Settled s)
include hss hsettled

theorem scopedStmts_reads {type : Option Tree} (htype : ∀ t, type = some t → ReadsType t) :
    Stmts (scopedStmts type ss) ∧ ∀ s ∈ scopedStmts type ss, Settled s := by
  cases type with
  | none => exact ⟨hss, hsettled⟩
  | some t =>
    have ht := htype t rfl
    have hpat : NamePattern (Make.namePat returnName) := namePattern_make (by decide)
    have hblock := (hss.blockLike hsettled (o := Pos.none) (c := Pos.none)).operand.leading.chained.valued
    have htyped : Settled (.node .typePat [.noAttrs, Make.namePat returnName, Make.symbol ":", t]) :=
      grouped_node (by simp [Grouping.partCount?]) (List.forall_mem_cons.mpr ⟨settled_noAttrs, List.forall_mem_cons.mpr
        ⟨hpat.settled, List.forall_mem_cons.mpr ⟨settled_leaf _, List.forall_mem_singleton.mpr ht.settled⟩⟩⟩) {}
    have hname : Valued true (Make.nameExpr returnName) := valued_name (by decide)
    obtain ⟨hstmt, hbound⟩ := stmt_binding (hpat.binds_type ht) htyped hblock
    refine ⟨.cons hstmt hname.stmts, ?_⟩
    exact List.forall_mem_cons.mpr ⟨hbound, List.forall_mem_singleton.mpr (settled_exprStmt hname.settled rfl)⟩

theorem scopeExpr_reads : Valued true (scopeExpr ss) := by
  have hguard : Valued true (Make.reference profileGuard) := valued_reference (by decide)
  have hfuture := (hss.future hsettled (o := Pos.none) (c := Pos.none) (a := Pos.none) (m := Pos.none)).leading.chained.valued
  have hcall : Operand true false (Make.call (Make.rootPath (profilerPath ["scope"])) [Make.reference profileGuard, Make.symbol ",",
      .node .asyncExpr [.noAttrs, Make.word "async", Make.word "move", Make.block ss]]) := by
    refine operand_rootCall (by simp [profilerPath]) (by decide) Pos.none
      (.cons hguard.value.reads hguard.taken (.last hfuture.value.reads hfuture.taken)) ?_
    exact List.forall_mem_cons.mpr ⟨hguard.settled, List.forall_mem_cons.mpr ⟨rfl, List.forall_mem_singleton.mpr hfuture.settled⟩⟩
  exact hcall.await.leading.chained.valued

end

/-! ### Plans -/

/-- A function of common code, with a plan whose paths have two colons in front of generic arguments. The code is asked for as it is in the function;
    of the generated code only the label of a `break` with a wrapped value is. -/
structure Plan.Fits (plan : Plan) (name : String) (f : Function) : Prop where
  head : f.Heads
  body : ∃ ss o c, f.body = some (blockOf ss o c) ∧ Plain plan.calls name .stmts (.node .stmts ss)
  wrapper : Generic true plan.calls.wrapper
  callbacks : ∀ options, plan = .profile options → ∀ path, options.below = some path ∨ options.above = some path → Generic true path
  /-- A return type is repeated in an async function. -/
  output : ∀ options, plan = .profile options → f.isAsync = true → ∀ t, bindingType? f = some t → ReadsType t

theorem parseExpr_valued {e : Bool} {t : Tree} (h : Valued e t) : Grammar.parseExpr t.written = .ok t := by
  have hread := h.value.reads [] .nothing
  rw [List.append_nil] at hread
  rw [Tree.written, Tree.grouped, h.settled, Grammar.parseExpr, parseWith, hread]

theorem parseBlock_blockOf (hss : Stmts ss) (hsettled : ∀ s ∈ ss, Settled s) :
    Grammar.parseBlock (blockOf ss o c).written = .ok (blockOf ss o c) := by
  have hread := hss.block o c false []
  rw [List.append_nil] at hread
  rw [Tree.written, Tree.grouped, settled_blockOf hsettled, Grammar.parseBlock, parseWith, hread]

/-- Whatever is generated for the function can be read. -/
theorem Plan.Fits.not_unread (h : plan.Fits name f) (hbody : f.body = some body) (fault : Fault) :
    ¬plan.Unread name f body fault := by
  obtain ⟨ss, o, c, hblock, hplain⟩ := h.body
  obtain rfl : body = blockOf ss o c := Option.some.inj (hbody.symm.trans hblock)
  have hreads := CallOptions.Rereads.of_plain h.wrapper hplain
  intro hunread
  cases hunread with
  | wrapper hmem hsite hacc hcallee hread =>
    rw [isCallee_of_path h.wrapper] at hcallee
    cases hcallee
  | call hmem hsite hacc hread =>
    obtain ⟨e, n, hoperand⟩ := hreads.ready_blockOf _ hmem (by simp [CallOptions.acceptsCall, hsite, hacc])
    rw [parseExpr_valued hoperand.leading.chained.valued] at hread
    cases hread
  | callback hplan hpath hcallee hread =>
    rw [isCallee_of_path (h.callbacks _ hplan _ hpath)] at hcallee
    cases hcallee
  | future hplan hasync hread =>
    subst hplan
    obtain ⟨hstmts, hsettled⟩ := hreads.stmts
    rw [CallOptions.Rereads.wrapTree_blockOf] at hread
    cases (parseBlock_blockOf hstmts hsettled).symm.trans hread

/-- The body that a plan makes is written as it is and reads as it is written. -/
theorem Plan.Makes.reads {new : Tree} (h : plan.Makes name f body new) (hfits : plan.Fits name f) (hbody : f.body = some body) :
    ∃ ss o c, new = blockOf ss o c ∧ Stmts ss ∧ ∀ s ∈ ss, Settled s := by
  obtain ⟨ss, o, c, hblock, hplain⟩ := hfits.body
  obtain rfl : body = blockOf ss o c := Option.some.inj (hbody.symm.trans hblock)
  obtain ⟨hstmts, hsettled⟩ := (CallOptions.Rereads.of_plain hfits.wrapper hplain).stmts
  cases h with
  | wrapped options => exact ⟨_, o, c, CallOptions.Rereads.wrapTree_blockOf, hstmts, hsettled⟩
  | @started options item hsync hitem =>
    obtain ⟨_, hok, hstmt, hset⟩ := profileItem_reads (fun p hp => hfits.callbacks _ rfl p (.inl hp))
      (fun p hp => hfits.callbacks _ rfl p (.inr hp)) name
    obtain rfl := Except.ok.inj (hok.symm.trans hitem)
    obtain ⟨hguard, hguarded⟩ := @guardStmt_reads "start" (by decide)
    rw [CallOptions.Rereads.wrapTree_blockOf]
    refine ⟨_, o, c, rfl, .cons hstmt (.cons hguard hstmts), ?_⟩
    exact List.forall_mem_cons.mpr ⟨hset, List.forall_mem_cons.mpr ⟨hguarded, hsettled⟩⟩
  | @entered options item hasync hitem =>
    obtain ⟨_, hok, hstmt, hset⟩ := profileItem_reads (fun p hp => hfits.callbacks _ rfl p (.inl hp))
      (fun p hp => hfits.callbacks _ rfl p (.inr hp)) name
    obtain rfl := Except.ok.inj (hok.symm.trans hitem)
    obtain ⟨hguard, hguarded⟩ := @guardStmt_reads "new" (by decide)
    obtain ⟨hscoped, hscopedSettled⟩ := scopedStmts_reads hstmts hsettled (hfits.output _ rfl hasync)
    have hscope := scopeExpr_reads hscoped hscopedSettled
    rw [CallOptions.Rereads.wrapTree_blockOf]
    refine ⟨_, o, c, rfl, .cons hstmt (.cons hguard hscope.stmts), ?_⟩
    exact List.forall_mem_cons.mpr ⟨hset, List.forall_mem_cons.mpr ⟨hguarded, List.forall_mem_singleton.mpr
      (settled_exprStmt hscope.settled rfl)⟩⟩

theorem Function.Heads.of_changes (h : f.Heads) (hchanges : plan.Changes name f body g) : g.Heads := by
  refine ⟨fun a ha => ?_, hchanges.sig ▸ h.settled, ?_, ?_, hchanges.sig ▸ h.sig⟩
  · rcases hchanges.attrs with hattrs | hattrs
    · exact h.attrs a (hattrs ▸ ha)
    · rw [hattrs] at ha
      rcases List.mem_append.mp ha with ha | ha
      · exact h.attrs a ha
      · rw [List.mem_singleton.mp ha]
        exact readsAttr_allow
  · rw [hchanges.vis, hchanges.sig]
    exact h.front
  · rw [hchanges.vis, hchanges.sig]
    exact h.vis

/-- A transformed function that a plan fits is written as it is and reads as it is written. -/
theorem Plan.Fits.parse {count : Nat} (h : plan.Fits name f) (hbody : f.body = some body)
    (htransform : plan.transform name f = .ok (g, count)) : Function.parse g.toTokens = .ok g ∧ g.grouped = g := by
  have hchanges := Plan.transform_changes hbody htransform
  obtain ⟨new, hnew, hmakes⟩ := hchanges.body
  obtain ⟨ss, o, c, rfl, hstmts, hsettled⟩ := hmakes.reads h hbody
  have hheads := h.head.of_changes hchanges
  exact ⟨hheads.parse hnew hstmts hsettled, hheads.grouped hnew hsettled⟩

/-! ### Probes -/

/-- `fn f() { g(); }` -/
def callingFn : Function where
  attrs := []
  vis := .absent
  sig := .node .signature [.absent, .absent, .absent, .absent, Make.word "fn", Make.word "f", .absent, Make.parens [.list []],
    .absent, .absent]
  body := some (Make.block [.node .exprStmt [Make.call (Make.nameExpr "g") [], Make.symbol ";"]])

/-- The plan of `#[profile(time_limit = 1)]`. -/
def secondPlan : Plan := .profile (.ofLimit (.ofParts 1 0))

theorem fits_callingFn : secondPlan.Fits "f" callingFn where
  head := ⟨by simp [callingFn], rfl, fun _ => rfl, fun _ => rfl, fun _ _ _ => rfl⟩
  body := by
    have hcall : Plain secondPlan.calls "f" (.operand true false) (Make.call (Make.nameExpr "g") []) :=
      .call (.path (.start (.inl (by decide)) (by decide) .nil)) .noArgs rfl
    exact ⟨_, Pos.none, Pos.none, rfl, .moreStmts (.valueStmt (.value (.chain (.leading hcall)))) .noStmts⟩
  wrapper := (names_root (by simp) (by decide) Pos.none).generic true
  callbacks := by
    rintro _ ⟨⟩ path (hpath | hpath)
    · cases hpath
      exact (names_root (by simp) (by decide) Pos.none).generic true
    · cases hpath
      exact (names_root (by simp) (by decide) Pos.none).generic true
  output := by
    rintro _ ⟨⟩ hasync
    cases hasync

end CallProbe.Probe
