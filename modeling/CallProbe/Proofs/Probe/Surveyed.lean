import CallProbe.Proofs.Marked.Agreement
import CallProbe.Proofs.Pass.Parsed
import CallProbe.Proofs.Probe.Steps
import CallProbe.Proofs.Shape.Survey

/-! # Probes under a survey

A probe puts code in three places: in front of each wrapped call, at the start of the body, and around the body of an
async function. What is read from its plan may be anything (`Plan.Inserts`); all other code that it puts in passes every
survey. So `Succeeds.inside` can say, for all surveys at once, that a probe leaves a function passing as it did. -/

namespace CallProbe.Probe

open Source Call

/-- Code that a plan has been given or that is made around it: the arguments in front of a call, and a callback. -/
inductive Plan.Inserts : Plan → Tree → Prop where
  | guard {plan : Plan} {site : Site} {args : List Tree} {code : Tree} (hargs : guardArgs plan.calls.wrapper site.toStatic = .ok args)
      (hcode : code ∈ args) : Inserts plan code
  | callback {options : ProfileOptions} {path : Option Tree} {code : Tree} (hpath : path = options.below ∨ path = options.above)
      (hcode : callbackExpr path = .ok code) : Inserts (.profile options) code

variable {v : Survey} {plan : Plan} {name : String} {f g : Function} {body b : Tree}

/-- All code that a plan puts in passes. -/
def Plan.Passes (v : Survey) (plan : Plan) : Prop := ∀ code, plan.Inserts code → v.passes code = true

theorem Plan.Passes.guards (h : plan.Passes v) : v.Guards plan.calls :=
  fun _ _ hargs => List.all_eq_true.mpr fun code hcode => h code (.guard hargs hcode)

/-! ### Code around a body -/

theorem passes_rootPath (names : List String) (pos : Pos) : v.passes (Make.rootPath names pos) = true := by
  simp (disch := decide) [Make.rootPath, Survey.passes_other]

theorem passes_rootType (names : List String) : v.passes (Make.rootType names) = true := by
  simp (disch := decide) [Make.rootType, Survey.passes_other]

theorem passes_reference (n : String) : v.passes (Make.reference n) = true := by
  simp (disch := decide) [Make.reference, Make.nameExpr, Make.symbol, Survey.passes_other]

theorem passes_literal (text : String) : v.passes (Make.literal text) = true := by
  simp (disch := decide) [Make.literal, Survey.passes_other]

theorem passes_staticItem (n : String) (type value : Tree) :
    v.passes (Make.staticItem n type value) = (v.passes type && v.passes value) := by
  simp (disch := decide) only [Make.staticItem, Make.word, Make.symbol, Survey.passes_other, List.all_cons, List.all_nil,
    Survey.passes_noAttrs, Survey.passes_absent, Survey.passes_leaf, Bool.true_and, Bool.and_true]

theorem passes_letStmt (pat value : Tree) : v.passes (Make.letStmt pat value) = (v.passes pat && v.passes value) := by
  simp (disch := decide) only [Make.letStmt, Make.word, Make.symbol, Survey.passes_other, List.all_cons, List.all_nil,
    Survey.passes_noAttrs, Survey.passes_absent, Survey.passes_leaf, Bool.true_and, Bool.and_true]

theorem passes_itemStmt (item : Tree) : v.passes (Make.itemStmt item) = v.passes item := by
  simp (disch := decide) [Make.itemStmt, Survey.passes_other]

theorem passes_lastExpr (e : Tree) : v.passes (Make.lastExpr e) = v.passes e := by
  simp (disch := decide) [Make.lastExpr, Survey.passes_other]

theorem passes_namePat (n : String) : v.passes (Make.namePat n) = true := by
  simp (disch := decide) [Make.namePat, Make.word, Survey.passes_other]

theorem passes_block (stmts : List Tree) : v.passes (Make.block stmts) = (v.opens stmts && stmts.all v.passes) := by
  simp (disch := decide) only [Make.block, Survey.passes_other, Survey.passes_group, Survey.passes_stmts, List.all_cons,
    List.all_nil, Survey.passes_noAttrs, Bool.true_and, Bool.and_true]

theorem passes_listAttr (n argument : String) : v.passes (Function.listAttr n argument) = true := by
  simp (disch := decide) [Function.listAttr, Make.symbol, Survey.passes_other, Survey.passes_group]

theorem passes_guardStmt (maker : String) : v.passes (guardStmt maker) = true := by
  simp [guardStmt, passes_letStmt, passes_namePat, Survey.passes_call, passes_rootPath, passes_reference]

theorem passes_profileItem {options : ProfileOptions} {item : Tree} (h : (Plan.profile options).Passes v)
    (hitem : profileItem options name = .ok item) : v.passes item = true := by
  cases hbelow : callbackExpr options.below with
  | error e => simp [profileItem, hbelow, bind, Except.bind] at hitem
  | ok below =>
    cases habove : callbackExpr options.above with
    | error e => simp [profileItem, hbelow, habove, bind, Except.bind] at hitem
    | ok above =>
      have hpbelow := h _ (.callback (.inl rfl) hbelow)
      have hpabove := h _ (.callback (.inr rfl) habove)
      simp only [profileItem, hbelow, habove, bind, Except.bind, pure, Except.pure] at hitem
      obtain rfl := Except.ok.inj hitem
      simp [passes_staticItem, passes_rootType, Survey.passes_call, passes_rootPath, Make.terminated, Make.separated,
        Make.string, passes_literal, Make.symbol, hpbelow, hpabove]

/-! ### Bodies -/

/-- The statements of a body. -/
def bodyStmts : Tree → List Tree
  | .node .block [.group _ _ [_, .node .stmts ss] _] => ss
  | _ => []

/-- The body of a function that was read. -/
theorem ofParts_body {Q : Tree → Prop} (attrs vis sig : Tree) (h : Parse.BodyForm Q body) :
    ∃ b, (Function.ofParts attrs vis sig body).body = some b ∧ IsBody b := by
  obtain ⟨o, inner, ss, c, rfl, -⟩ := h
  exact ⟨_, rfl, .brace, o, ss, c, rfl⟩

theorem bodyStmts_wrapTree (h : IsBody body) (options : CallOptions) (function : String) :
    bodyStmts (options.wrapTree function body) = (bodyStmts body).map (options.wrapTree function) := by
  obtain ⟨d, o, ss, c, rfl⟩ := h
  rw [CallOptions.wrapTree_of_isOpen _ _ rfl, List.map_singleton, CallOptions.wrapTree_group, List.map_cons, List.map_singleton,
    CallOptions.wrapTree_of_isOpen _ _ (k := .stmts) rfl]
  rfl

theorem bodyStmts_grouped (h : IsBody body) : bodyStmts body.grouped = (bodyStmts body).map Tree.grouped := by
  obtain ⟨d, o, ss, c, rfl⟩ := h
  exact Grouping.trees_eq .least ss

theorem bodyStmts_withStmts (h : IsBody body) (change : List Tree → List Tree) :
    bodyStmts (withStmts change body) = change (bodyStmts body) := by
  obtain ⟨d, o, ss, c, rfl⟩ := h
  rfl

theorem passes_body (h : IsBody body) : v.passes body = (v.opens (bodyStmts body) && (bodyStmts body).all v.passes) := by
  obtain ⟨d, o, ss, c, rfl⟩ := h
  rw [Survey.passes_other _ _ (by decide) (by decide), List.all_cons, Survey.passes_group, List.all_cons, List.all_cons,
    Survey.passes_noAttrs, Survey.passes_stmts]
  simp [bodyStmts]

/-! ### Functions -/

/-- Whether a function passes, but for what its own block is tested for. -/
def Function.inside (v : Survey) (f : Function) : Bool :=
  f.attrs.all v.passes && (v.passes f.vis && (v.passes f.sig && f.body.all fun b => (bodyStmts b).all v.passes))

theorem passes_bindingType {t : Tree} (hsig : v.passes f.sig = true) (h : bindingType? f = some t) : v.passes t = true := by
  unfold bindingType? Function.returnType? at h
  split at h
  · rename_i type htype
    split at htype
    · rename_i arrow returned _ hform
      obtain rfl := Option.some.inj htype
      have hreturn : v.passes (.node .returnType [arrow, returned]) = true := by
        rw [hform, Survey.passes_other _ _ (by decide) (by decide)] at hsig
        exact List.all_eq_true.mp hsig _ (by simp)
      rw [Survey.passes_other _ _ (by decide) (by decide)] at hreturn
      have hreturned : v.passes returned = true := List.all_eq_true.mp hreturn _ (by simp)
      split at h
      · cases h
      · obtain rfl := Option.some.inj h
        exact hreturned
    · cases htype
  · cases h

/-- Statements in the future that enters the invocation, among them the declared type of what is returned. -/
theorem passes_scopeExpr (ss : List Tree) : v.passes (scopeExpr ss) = (v.opens ss && ss.all v.passes) := by
  simp (disch := decide) only [scopeExpr, Survey.passes_other, Survey.passes_call, passes_rootPath, passes_reference, passes_block,
    Make.symbol, Make.word, List.all_cons, List.all_nil, Survey.passes_noAttrs, Survey.passes_leaf, Bool.true_and, Bool.and_true]

theorem passes_scopedStmts {type : Option Tree} {ss : List Tree} (hopens : v.opens ss = true)
    (htype : ∀ t, type = some t → v.passes t = true) : (scopedStmts type ss).all v.passes = ss.all v.passes := by
  cases type with
  | none => rfl
  | some t =>
    have hpat : v.passes (.node .typePat [.noAttrs, Make.namePat returnName, Make.symbol ":", t]) = true := by
      rw [Survey.passes_other _ _ (by decide) (by decide)]
      simp [passes_namePat, Make.symbol, htype t rfl]
    have hreturn : v.passes (Make.nameExpr returnName) = true := by
      simp (disch := decide) [Make.nameExpr, Survey.passes_other]
    have hblock : v.passes (Make.blockExpr ss) = ss.all v.passes := by
      rw [Make.blockExpr, Survey.passes_other _ _ (by decide) (by decide)]
      simp [passes_block, hopens]
    simp only [scopedStmts, List.all_cons, List.all_nil, passes_letStmt, passes_lastExpr, hpat, hreturn, hblock, Bool.true_and,
      Bool.and_true]

theorem Plan.Makes.isBody (h : plan.Makes name f body b) (hform : IsBody body) : IsBody b := by
  cases h with
  | wrapped options => exact hform.wrapTree options name
  | @started options item hsync hitem => exact (hform.wrapTree options.calls name).withStmts _
  | @entered options item hasync hitem => exact (hform.wrapTree options.calls name).withStmts _

/-- The statements of a body pass as before, if the prologue moves them into no block that does not. -/
theorem Plan.Makes.inside (h : plan.Makes name f body b) (hform : IsBody body) (hpass : plan.Passes v)
    (hsig : v.passes f.sig = true)
    (hscope : f.isAsync = true → v.opens (bodyStmts body) = true ∧ ∀ t ss, v.opens (scopedStmts (some t) ss) = true) :
    (bodyStmts b).all v.passes = (bodyStmts body).all v.passes := by
  cases h with
  | wrapped options =>
    rw [bodyStmts_wrapTree hform]
    exact v.all_congr fun t _ => Survey.passes_wrapTree hpass.guards name t
  | @started options item hsync hitem =>
    have hwrapped := hform.wrapTree options.calls name
    rw [bodyStmts_withStmts hwrapped, bodyStmts_wrapTree hform, List.all_append, List.all_cons, List.all_cons, List.all_nil,
      passes_itemStmt, passes_profileItem hpass hitem, passes_guardStmt]
    exact v.all_congr fun t _ => Survey.passes_wrapTree hpass.guards name t
  | @entered options item hasync hitem =>
    have hwrapped := hform.wrapTree options.calls name
    obtain ⟨hown, htyped⟩ := hscope hasync
    have hnew : v.opens ((bodyStmts body).map (options.calls.wrapTree name)) = true := by
      rw [v.opens_map (options.calls.regular_wrapTree name), hown]
    have hopens : ∀ type, v.opens (scopedStmts type ((bodyStmts body).map (options.calls.wrapTree name))) = true := by
      intro type
      cases type with
      | none => exact hnew
      | some t => exact htyped t _
    rw [bodyStmts_withStmts hwrapped, bodyStmts_wrapTree hform]
    simp only [List.all_cons, List.all_nil, passes_itemStmt, passes_profileItem hpass hitem, passes_guardStmt, passes_lastExpr,
      passes_scopeExpr, hopens, passes_scopedStmts hnew (fun t ht => passes_bindingType hsig ht), Bool.true_and, Bool.and_true]
    exact v.all_congr fun t _ => Survey.passes_wrapTree hpass.guards name t

theorem inside_grouped (hbody : g.body = some b) (hform : IsBody b) : g.grouped.inside v = g.inside v := by
  have hattrs : (g.attrs.map Tree.grouped).all v.passes = g.attrs.all v.passes := v.all_congr fun a _ => v.passes_grouped a
  have hstmts : ((bodyStmts b).map Tree.grouped).all v.passes = (bodyStmts b).all v.passes :=
    v.all_congr fun s _ => v.passes_grouped s
  simp only [Function.inside, Function.grouped, hattrs, hbody, Option.map_some, Option.all_some, Survey.passes_grouped,
    bodyStmts_grouped hform, hstmts]

theorem Plan.Changes.inside (h : plan.Changes name f body g) (hbody : f.body = some body) (hform : IsBody body)
    (hpass : plan.Passes v)
    (hscope : f.isAsync = true → v.opens (bodyStmts body) = true ∧ ∀ t ss, v.opens (scopedStmts (some t) ss) = true) :
    g.inside v = f.inside v := by
  obtain ⟨b, hb, hmakes⟩ := h.body
  have hattrs : g.attrs.all v.passes = f.attrs.all v.passes := by
    rcases h.attrs with hsame | hmore
    · rw [hsame]
    · rw [hmore, List.all_append]
      simp [passes_listAttr]
  unfold Function.inside
  rw [hattrs, h.vis, h.sig, hb, hbody, Option.all_some, Option.all_some]
  cases hsig : v.passes f.sig with
  | false => rfl
  | true => rw [hmakes.inside hform hpass hsig hscope]

/-- What taking a marker away leaves. -/
theorem strip_inv {strip : Option Tree} (h : strip.elim (some f) f.strip? = some g) :
    g.attrs.Sublist f.attrs ∧ g.vis = f.vis ∧ g.sig = f.sig ∧ g.body = f.body := by
  cases strip with
  | none =>
    cases h
    exact ⟨List.Sublist.refl _, rfl, rfl, rfl⟩
  | some a =>
    obtain ⟨c, before, after, -, hattrs, rfl⟩ := strip?_inv h
    rw [hattrs]
    exact ⟨(List.sublist_cons_self c after).append_left before, rfl, rfl, rfl⟩

/-- A probe leaves the function passing as it does without its marker. -/
theorem Succeeds.inside {strip : Option Tree} {p : Probed} (h : Succeeds plan strip name f p) (hbody : f.body = some body)
    (hform : IsBody body) (hpass : plan.Passes v)
    (hscope : f.isAsync = true → v.opens (bodyStmts body) = true ∧ ∀ t ss, v.opens (scopedStmts (some t) ss) = true) :
    ∃ f', strip.elim (some f) f.strip? = some f' ∧ p.item.inside v = f'.inside v := by
  obtain ⟨body', f', g, hbody', hstrip, hchanges, -, hitem⟩ := h.steps
  obtain rfl : body' = body := Option.some.inj (hbody'.symm.trans hbody)
  obtain ⟨-, -, hsig, hkept⟩ := strip_inv hstrip
  obtain ⟨b, hb, hmakes⟩ := hchanges.body
  refine ⟨f', hstrip, ?_⟩
  rw [hitem, inside_grouped hb (hmakes.isBody hform)]
  refine hchanges.inside (hkept.trans hbody) hform hpass fun hasync => hscope ?_
  rw [← isAsync_of_sig hsig, hasync]

theorem Succeeds.isBody {strip : Option Tree} {p : Probed} (h : Succeeds plan strip name f p) (hbody : f.body = some body)
    (hform : IsBody body) : ∃ b, p.item.body = some b ∧ IsBody b := by
  obtain ⟨body', f', g, hbody', -, hchanges, -, hitem⟩ := h.steps
  obtain rfl : body' = body := Option.some.inj (hbody'.symm.trans hbody)
  obtain ⟨b, hb, hmakes⟩ := hchanges.body
  exact ⟨b.grouped, by rw [hitem, Function.grouped, hb, Option.map_some], (hmakes.isBody hform).grouped⟩

theorem Succeeds.vis {strip : Option Tree} {p : Probed} (h : Succeeds plan strip name f p) : p.item.vis = f.vis := by
  obtain ⟨body, f', g, -, hstrip, hchanges, -, hitem⟩ := h.steps
  obtain ⟨-, hvis, -, -⟩ := strip_inv hstrip
  rw [hitem, Function.grouped, hchanges.vis, hvis]

/-! ### Asks -/

variable {asks : List Ask} {ps : List Probed}

theorem Ask.Chain.isBody (h : Ask.Chain name f asks ps g) (hbody : f.body = some body) (hform : IsBody body) :
    ∃ b, g.body = some b ∧ IsBody b := by
  induction h generalizing body with
  | done f => exact ⟨body, hbody, hform⟩
  | next ha _ ih =>
    obtain ⟨plan, -, hsucceeds⟩ := Ask.apply_inv ha
    obtain ⟨b, hb, hb'⟩ := hsucceeds.isBody hbody hform
    exact ih hb hb'

/-- The constants that are asked for are as visible as the function. -/
theorem Ask.Chain.details (h : Ask.Chain name f asks ps g) : ∀ c ∈ ps.filterMap (·.details),
    ∃ n before after, c = detailsConst f.vis n name before after := by
  induction h with
  | done => simp
  | @next f g a as p ps ha _ ih =>
    obtain ⟨plan, -, hsucceeds⟩ := Ask.apply_inv ha
    have hvis := hsucceeds.vis
    intro c hc
    rw [List.filterMap_cons, hsucceeds.details] at hc
    cases hn : plan.calls.details with
    | none =>
      rw [hn] at hc
      obtain ⟨n, before, after, rfl⟩ := ih c hc
      exact ⟨n, before, after, by rw [hvis]⟩
    | some n =>
      rw [hn] at hc
      rcases List.mem_cons.mp hc with rfl | hc
      · exact ⟨n, p.sourceBefore, p.sourceAfter, by rw [hvis]⟩
      · obtain ⟨n, before, after, rfl⟩ := ih c hc
        exact ⟨n, before, after, by rw [hvis]⟩

end CallProbe.Probe
