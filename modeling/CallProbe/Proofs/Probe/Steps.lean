import CallProbe.Proofs.Pass.Reached
import CallProbe.Proofs.Probe.Outcome

/-! # Probes, step by step

What a probe that succeeds has done, from the function it was given to the item it left: inversions for the transforms,
for the probe, and for the asks of a function one after the other (`Ask.Chain`). -/

namespace CallProbe.Probe

open Source Call

/-! ### Transforms -/

/-- The attribute that a transform may add. -/
abbrev allowAttr : Tree := Function.listAttr "allow" "unreachable_code"

/-- The function with attributes that a transform may leave: its own ones, and one more at most. -/
def Allows (f g : Function) : Prop := g.attrs = f.attrs ∨ g.attrs = f.attrs ++ [allowAttr]

theorem allows_allowUnreachable (f : Function) : Allows f f.allowUnreachable := by
  unfold Function.allowUnreachable
  dsimp only
  split
  · exact .inl rfl
  · exact .inr rfl

theorem allowUnreachable_of_hasAttr {f : Function} (h : f.hasAttr allowAttr = true) : f.allowUnreachable = f := if_pos h

/-- What a plan makes of the body of a function. -/
inductive Plan.Makes (name : String) (f : Function) (body : Tree) : Plan → Tree → Prop where
  | wrapped (options : CallOptions) : Makes name f body (.wrapCalls options) (options.wrapTree name body)
  | started {options : ProfileOptions} {item : Tree} (hsync : f.isAsync = false) (hitem : profileItem options name = .ok item) :
      Makes name f body (.profile options)
        (withStmts ([Make.itemStmt item, guardStmt "start"] ++ ·) (options.calls.wrapTree name body))
  | entered {options : ProfileOptions} {item : Tree} (hasync : f.isAsync = true) (hitem : profileItem options name = .ok item) :
      Makes name f body (.profile options)
        (withStmts (fun ss => [Make.itemStmt item, guardStmt "new", Make.lastExpr (scopeExpr (scopedStmts (bindingType? f) ss))])
          (options.calls.wrapTree name body))

/-- What a transform changes of a function: its body, and its attributes by one at most. -/
structure Plan.Changes (plan : Plan) (name : String) (f : Function) (body : Tree) (g : Function) : Prop where
  runs : f.isConst = false
  vis : g.vis = f.vis
  sig : g.sig = f.sig
  attrs : Allows f g
  body : ∃ b, g.body = some b ∧ plan.Makes name f body b

variable {plan : Plan} {name : String} {f g : Function} {body : Tree} {count : Nat}

theorem CallOptions.apply_inv {options : CallOptions} (hbody : f.body = some body) (h : options.apply name f = .ok (g, count)) :
    f.isConst = false ∧ (g = { f with body := some (options.wrapTree name body) } ∨
      g = ({ f with body := some (options.wrapTree name body) } : Function).allowUnreachable) := by
  unfold CallOptions.apply at h
  split at h
  · cases h
  · rename_i hconst
    refine ⟨by simpa using hconst, ?_⟩
    rw [hbody] at h
    dsimp only at h
    rw [wrapBlock_eq] at h
    split at h
    · cases h
    · rename_i heq
      obtain ⟨⟨rfl, rfl⟩, -⟩ : (options.wrapTree name body = _ ∧ _ = _) ∧ _ := by simpa only [Prod.mk.injEq] using heq
      obtain ⟨rfl, -⟩ := Prod.mk.inj (Except.ok.inj h)
      split
      · exact .inl rfl
      · exact .inr rfl

theorem ProfileOptions.apply_inv {options : ProfileOptions} (hbody : f.body = some body)
    (h : options.apply name f = .ok (g, count)) : ∃ item, profileItem options name = .ok item ∧
      (f.isAsync = false ∧ g = { f with body := some (withStmts ([Make.itemStmt item, guardStmt "start"] ++ ·) body) } ∨
        f.isAsync = true ∧ g = ({ f with body := some (withStmts (fun ss => [Make.itemStmt item, guardStmt "new",
          Make.lastExpr (scopeExpr (scopedStmts (bindingType? f) ss))]) body) } : Function).allowUnreachable) := by
  unfold ProfileOptions.apply at h
  split at h
  · cases h
  · rw [hbody] at h
    dsimp only at h
    split at h
    · cases h
    · rename_i item hitem
      refine ⟨item, hitem, ?_⟩
      split at h
      · rename_i hasync
        split at h
        · cases h
        · obtain ⟨rfl, -⟩ := Prod.mk.inj (Except.ok.inj h)
          exact .inr ⟨hasync, rfl⟩
      · rename_i hsync
        obtain ⟨rfl, -⟩ := Prod.mk.inj (Except.ok.inj h)
        exact .inl ⟨by simpa using hsync, rfl⟩

theorem sig_allowUnreachable (f : Function) : f.allowUnreachable.sig = f.sig := by
  unfold Function.allowUnreachable
  dsimp only
  split <;> rfl

theorem vis_allowUnreachable (f : Function) : f.allowUnreachable.vis = f.vis := by
  unfold Function.allowUnreachable
  dsimp only
  split <;> rfl

theorem isAsync_of_sig {f g : Function} (h : g.sig = f.sig) : g.isAsync = f.isAsync := by
  unfold Function.isAsync
  rw [h]

theorem bindingType?_of_sig {f g : Function} (h : g.sig = f.sig) : bindingType? g = bindingType? f := by
  unfold bindingType? Function.returnType?
  rw [h]

/-- A function whose body and attributes a transform of calls has changed. -/
theorem CallOptions.apply_changes {options : CallOptions} (hbody : f.body = some body) (h : options.apply name f = .ok (g, count)) :
    f.isConst = false ∧ g.vis = f.vis ∧ g.sig = f.sig ∧ Allows f g ∧ g.body = some (options.wrapTree name body) := by
  obtain ⟨hconst, rfl | rfl⟩ := CallOptions.apply_inv hbody h
  · exact ⟨hconst, rfl, rfl, .inl rfl, rfl⟩
  · refine ⟨hconst, vis_allowUnreachable _, sig_allowUnreachable _, allows_allowUnreachable _, ?_⟩
    rw [Function.body_allowUnreachable]

/-- The attribute is added once, however often it is asked for. -/
theorem Allows.allowUnreachable {g k : Function} (h : Allows f g) (hk : k.attrs = g.attrs) : Allows f k.allowUnreachable := by
  rcases h with h | h
  · rcases allows_allowUnreachable k with hall | hall
    · exact .inl (hall.trans (hk.trans h))
    · exact .inr (hall.trans (by rw [hk, h]))
  · have hhas : k.hasAttr allowAttr = true := by
      rw [Function.hasAttr, hk, h]
      simp [Tree.same_refl]
    rw [allowUnreachable_of_hasAttr hhas]
    exact .inr (hk.trans h)

theorem Plan.transform_changes (hbody : f.body = some body) (h : plan.transform name f = .ok (g, count)) :
    plan.Changes name f body g := by
  cases plan with
  | wrapCalls options =>
    obtain ⟨hconst, hvis, hsig, hattrs, hb⟩ := CallOptions.apply_changes hbody h
    exact ⟨hconst, hvis, hsig, hattrs, _, hb, .wrapped options⟩
  | profile options =>
    cases hcalls : options.calls.apply name f with
    | error halt => simp [Plan.transform, hcalls, bind, Except.bind] at h
    | ok r =>
      obtain ⟨f', n⟩ := r
      obtain ⟨hconst, hvis, hsig, hattrs, hb⟩ := CallOptions.apply_changes hbody hcalls
      cases hprofile : options.apply name f' with
      | error halt => simp [Plan.transform, hcalls, hprofile, bind, Except.bind] at h
      | ok r =>
        obtain ⟨g', m⟩ := r
        obtain ⟨rfl, -⟩ : g' = g ∧ n + m = count := by
          simpa [Plan.transform, hcalls, hprofile, bind, Except.bind, pure, Except.pure] using h
        obtain ⟨item, hitem, ⟨hsync, rfl⟩ | ⟨hasync, rfl⟩⟩ := ProfileOptions.apply_inv hb hprofile
        · exact ⟨hconst, hvis, hsig, hattrs, _, rfl, .started (by rw [← hsync, isAsync_of_sig hsig]) hitem⟩
        · refine ⟨hconst, (vis_allowUnreachable _).trans hvis, (sig_allowUnreachable _).trans hsig,
            hattrs.allowUnreachable rfl, _, Function.body_allowUnreachable _, ?_⟩
          rw [bindingType?_of_sig hsig]
          exact .entered (by rw [← hasync, isAsync_of_sig hsig]) hitem

/-! ### Probes -/

/-- What a probe that succeeded did: it took the marker away, transformed the function and read it back. -/
structure Succeeds (plan : Plan) (strip : Option Tree) (name : String) (f : Function) (p : Probed) : Prop where
  function : p.function = name
  details : p.details = plan.calls.details.map fun n => detailsConst p.item.vis n name p.sourceBefore p.sourceAfter
  steps : ∃ body f' g, f.body = some body ∧ strip.elim (some f) f.strip? = some f' ∧ plan.Changes name f' body g ∧
    g.readsBack = true ∧ p.item = g.grouped

theorem rebuild_inv {before : String} {p : Probed} (hbody : f.body = some body) (h : rebuild f name plan body before = .ok p) :
    p.function = name ∧ p.sourceBefore = before ∧
      (p.details = plan.calls.details.map fun n => detailsConst p.item.vis n name before p.sourceAfter) ∧
      ∃ g, plan.Changes name f body g ∧ g.readsBack = true ∧ p.item = g.grouped := by
  obtain ⟨g, count, after, htransform, hback, -, rfl⟩ := rebuild_eq_ok.mp h
  exact ⟨rfl, rfl, rfl, g, Plan.transform_changes hbody htransform, hback, rfl⟩

/-- The first attribute that is the marker is taken away, and nothing else. -/
theorem strip?_inv {a : Tree} (h : f.strip? a = some g) :
    ∃ c before after, c.same a = true ∧ f.attrs = before ++ c :: after ∧ g = { f with attrs := before ++ after } := by
  unfold Function.strip? at h
  split at h
  · rename_i hhas
    cases h
    obtain ⟨b, hb, hsame⟩ := List.any_eq_true.mp hhas
    obtain ⟨c, before, after, -, hc, hattrs, herased⟩ := List.exists_of_eraseP (p := fun b => b.same a) hb hsame
    exact ⟨c, before, after, hc, hattrs, by rw [herased]⟩
  · cases h

theorem body_of_strip {a : Tree} (h : f.strip? a = some g) : g.body = f.body := by
  obtain ⟨c, before, after, -, -, rfl⟩ := strip?_inv h
  rfl

theorem probe_inv {strip : Option Tree} {p : Probed} (h : probe f name plan strip = .ok p) : Succeeds plan strip name f p := by
  obtain ⟨body, f', before, hbody, hstrip, hrebuild⟩ := rebuild_of_probe h
  have hbody' : f'.body = some body := by
    cases strip with
    | none =>
      cases hstrip
      exact hbody
    | some a => exact (body_of_strip hstrip).trans hbody
  obtain ⟨hfunction, rfl, hdetails, g, hchanges, hback, hitem⟩ := rebuild_inv hbody' hrebuild
  exact ⟨hfunction, hdetails, body, f', g, hbody, hstrip, hchanges, hback, hitem⟩

theorem Succeeds.item_body {strip : Option Tree} {p : Probed} (h : Succeeds plan strip name f p) : ∃ b, p.item.body = some b := by
  obtain ⟨body, f', g, -, -, hchanges, -, hitem⟩ := h.steps
  obtain ⟨b, hb, -⟩ := hchanges.body
  exact ⟨b.grouped, by rw [hitem, Function.grouped, hb, Option.map_some]⟩

/-! ### Asks -/

/-- The marker that an ask takes away. -/
def Ask.strip : Ask → Option Tree
  | marked _ attr => some attr
  | selected _ => none

/-- The plan of an ask. -/
def Ask.planned : Ask → Except PlanError Plan
  | marked m attr => Plan.ofAttr m attr
  | selected plan => .ok plan

theorem Ask.apply_inv {a : Ask} {p : Probed} (h : a.apply name f = .ok p) :
    ∃ plan, a.planned = .ok plan ∧ Succeeds plan a.strip name f p := by
  cases a with
  | marked m attr =>
    cases hplan : Plan.ofAttr m attr with
    | error e => simp [Ask.apply, hplan, Except.mapError, bind, Except.bind] at h
    | ok plan =>
      exact ⟨plan, hplan, probe_inv ((Ask.apply_marked hplan name f).symm.trans h)⟩
  | selected plan => exact ⟨plan, rfl, probe_inv h⟩

/-- The probes of a function as one ask after the other says, each of what the one before has left. -/
inductive Ask.Chain (name : String) : Function → List Ask → List Probed → Function → Prop where
  | done (f : Function) : Chain name f [] [] f
  | next {f g : Function} {a : Ask} {as : List Ask} {p : Probed} {ps : List Probed} (h : a.apply name f = .ok p)
      (hrest : Chain name p.item as ps g) : Chain name f (a :: as) (p :: ps) g

/-- The first ask of a chain that cannot be met, and why. -/
inductive Ask.Breaks (name : String) : Function → List Ask → Failure → Prop where
  | here {f : Function} {a : Ask} {as : List Ask} {e : Failure} (h : a.apply name f = .error e) : Breaks name f (a :: as) e
  | later {f : Function} {a : Ask} {as : List Ask} {p : Probed} {e : Failure} (h : a.apply name f = .ok p)
      (hrest : Breaks name p.item as e) : Breaks name f (a :: as) e

variable {asks : List Ask} {ps : List Probed}

theorem Ask.applyAll_ok : Ask.applyAll name f asks = .ok ps ↔ ∃ g, Ask.Chain name f asks ps g := by
  constructor
  · intro h
    induction asks generalizing f ps with
    | nil =>
      cases h
      exact ⟨f, .done f⟩
    | cons a as ih =>
      rw [Ask.applyAll_cons] at h
      cases ha : a.apply name f with
      | error e =>
        rw [ha] at h
        cases h
      | ok p =>
        cases hmore : Ask.applyAll name p.item as with
        | error e => simp [ha, hmore, Except.bind, Except.map] at h
        | ok more =>
          obtain rfl : p :: more = ps := by simpa [ha, hmore, Except.bind, Except.map] using h
          obtain ⟨g, hg⟩ := ih hmore
          exact ⟨g, .next ha hg⟩
  · rintro ⟨g, h⟩
    induction h with
    | done => rfl
    | next ha _ ih => rw [Ask.applyAll_cons, ha, Except.bind, ih, Except.map]

theorem Ask.applyAll_error {e : Failure} : Ask.applyAll name f asks = .error e ↔ Ask.Breaks name f asks e := by
  constructor
  · intro h
    induction asks generalizing f with
    | nil => cases h
    | cons a as ih =>
      rw [Ask.applyAll_cons] at h
      cases ha : a.apply name f with
      | error e' =>
        rw [ha] at h
        cases h
        exact .here ha
      | ok p =>
        cases hmore : Ask.applyAll name p.item as with
        | error e' =>
          obtain rfl : e' = e := by simpa [ha, hmore, Except.bind, Except.map] using h
          exact .later ha (ih hmore)
        | ok more => simp [ha, hmore, Except.bind, Except.map] at h
  · intro h
    induction h with
    | here ha => rw [Ask.applyAll_cons, ha, Except.bind]
    | later ha _ ih => rw [Ask.applyAll_cons, ha, Except.bind, ih, Except.map]

/-- What a chain leaves is what its last probe has left. -/
theorem Ask.Chain.item_eq (h : Ask.Chain name f asks ps g) : (ps.getLast?.map (·.item)).getD f = g := by
  induction h with
  | done => rfl
  | next ha hrest ih =>
    cases hrest with
    | done => rfl
    | next => rwa [List.getLast?_cons_cons]

theorem Ask.Chain.length_eq (h : Ask.Chain name f asks ps g) : ps.length = asks.length := by
  induction h with
  | done => rfl
  | next _ _ ih => rw [List.length_cons, List.length_cons, ih]

theorem Ask.Chain.functions (h : Ask.Chain name f asks ps g) : ∀ p ∈ ps, p.function = name := by
  induction h with
  | done => simp
  | next ha _ ih =>
    obtain ⟨plan, -, hsucceeds⟩ := Ask.apply_inv ha
    exact List.forall_mem_cons.mpr ⟨hsucceeds.function, ih⟩

theorem Ask.Chain.item_body (h : Ask.Chain name f asks ps g) (hne : asks ≠ []) : ∃ b, g.body = some b := by
  induction h with
  | done => exact absurd rfl hne
  | next ha hrest ih =>
    cases hrest with
    | done =>
      obtain ⟨plan, -, hsucceeds⟩ := Ask.apply_inv ha
      exact hsucceeds.item_body
    | next => exact ih (by simp)

end CallProbe.Probe
