import CallProbe.Proofs.Pass.Unmarked

/-! # Imports after a pass

A bare `#[profile]` is a marker where a `use` brings it in, so a pass must not change what the file brings in. Markers that
are taken away hold names and tokens only, and the code that a probe puts around a function has no `use`: what can bring in
`profile` is code that the plan was given. -/

namespace CallProbe.Probe

open Source Call Parse

/-! ### A survey of what is brought in -/

/-- What a `use` brings in, of all the parts of the item. -/
def usedTree? : List Tree → Option Tree
  | [_, _, _, _, t, _] => some t
  | _ => none

theorem usedTree?_map (f : Tree → Tree) (cs : List Tree) : usedTree? (cs.map f) = (usedTree? cs).map f := by
  match cs with
  | [] | [_] | [_, _] | [_, _, _] | [_, _, _, _] | [_, _, _, _, _] | [_, _, _, _, _, _] => rfl
  | _ :: _ :: _ :: _ :: _ :: _ :: _ :: _ => rfl

/-- No `use` brings in `profile`. -/
def importing : Survey where
  kind := .useItem
  test cs := !(usedTree? cs).any (importsProfile false)
  enters cs := (usedTree? cs).isNone
  macros := false
  among := .inl rfl
  steady := by
    intro f hf cs
    rw [usedTree?_map, Option.isNone_map, Option.any_map]
    have hsame : (fun t => importsProfile false (f t)) = importsProfile false := funext (importsProfile_regular hf false)
    exact ⟨congrArg (fun test => !(usedTree? cs).any test) hsame, rfl⟩

theorem bringsInProfile_use (cs : List Tree) : bringsInProfile (.node .useItem cs) =
    ((usedTree? cs).any (importsProfile false) || (usedTree? cs).isNone && anyBringsInProfile cs) := by
  unfold usedTree?
  split
  · simp [bringsInProfile]
  · rename_i hother
    unfold bringsInProfile
    split
    · rename_i he
      cases he
      exact absurd rfl (hother _ _ _ _ _ _)
    · rename_i he
      cases he
      rfl
    · rename_i he
      cases he
    · rename_i hnode _
      exact absurd rfl (hnode _ _)

theorem bringsInProfile_other {k : Kind} (cs : List Tree) (hk : k ≠ .useItem) :
    bringsInProfile (.node k cs) = anyBringsInProfile cs := by
  unfold bringsInProfile
  split
  · rename_i he
    cases he
    exact absurd rfl hk
  · rename_i he
    cases he
    rfl
  · rename_i he
    cases he
  · rename_i hnode _
    exact absurd rfl (hnode _ _)

mutual

/-- The survey is passed exactly if nothing brings in `profile`. -/
theorem passes_importing : ∀ t : Tree, importing.passes t = !bringsInProfile t
  | .leaf _ | .tokens _ => by simp [Survey.passes, bringsInProfile]
  | .arguments _ _ => by simp [Survey.passes, bringsInProfile, importing]
  | .group _ _ content _ => by rw [Survey.passes, passesAll_importing content, bringsInProfile]
  | .node k cs => by
    rw [Survey.passes, passesAll_importing cs]
    split
    · rename_i hk
      obtain rfl : k = .useItem := hk
      rw [bringsInProfile_use]
      simp [importing, Bool.not_or]
    · rename_i hk
      rw [bringsInProfile_other cs hk]

theorem passesAll_importing : ∀ ts : List Tree, importing.passesAll ts = !anyBringsInProfile ts
  | [] => rfl
  | t :: ts => by rw [Survey.passesAll, passes_importing t, passesAll_importing ts, anyBringsInProfile, Bool.not_or]

end

/-! ### Attributes -/

variable {v : Survey}

/-- An attribute as it is read: it has a value, or passes every survey. -/
def AttrPasses (v : Survey) (a : Tree) : Prop :=
  v.passes a = true ∨ ∃ pound bang d o p cs c, a = .node .attr [pound, bang, .group d o [.node .metaNameValue (p :: cs)] c]

theorem passes_of_part {t : Tree} (h : PartForm t) : v.passes t = true := by
  cases h with
  | leaf l => rfl
  | name l =>
    rw [Survey.passes_other _ _ (by decide) (by decide)]
    simp [Survey.passes]

theorem passes_of_names {t : Tree} (h : NamesForm t) : v.passes t = true := by
  cases h with
  | @path lead parts hlead hparts =>
    have hlead : v.passes lead = true := by
      rcases hlead with rfl | ⟨l, rfl⟩
      · exact v.passes_absent
      · rfl
    simpa (disch := decide) [Tree.list, Survey.passes_other, hlead] using fun t ht => passes_of_part (hparts t ht)

theorem attrPasses_of_form {a : Tree} (h : AttrForm a) : AttrPasses v a := by
  cases h with
  | @attr pound bang hbang o inside hinside c =>
    have hbang : v.passes bang = true := by
      rcases hbang with rfl | ⟨l, rfl⟩
      · exact v.passes_absent
      · rfl
    cases hinside with
    | path hpath => exact .inl (by simp (disch := decide) [Survey.passes_other, Survey.passes_group, hbang, passes_of_names hpath])
    | tokens hpath => exact .inl (by simp (disch := decide) [Survey.passes_other, Survey.passes_group, hbang, passes_of_names hpath])
    | value p cs => exact .inr ⟨_, _, _, o, p, cs, c, rfl⟩

theorem outerAttr_passes (reach : Reach) : Gives (AttrPasses v) (outerAttr reach) := fun ts a rest h =>
  attrPasses_of_form (outerAttr_form ts a rest h)

theorem innerAttr_passes (reach : Reach) : Gives (AttrPasses v) (innerAttr reach) := fun ts a rest h =>
  attrPasses_of_form (innerAttr_form ts a rest h)

/-- A marker that has a plan has no value. -/
theorem passes_of_planned {m : Marker} {a : Tree} {plan : Plan} (h : AttrPasses v a) (hplan : Plan.ofAttr m a = .ok plan) :
    v.passes a = true := by
  rcases h with h | ⟨pound, bang, d, o, p, cs, c, rfl⟩
  · exact h
  · cases hplan

/-! ### Functions -/

variable {plan : Plan} {name : String} {f g : Function} {body : Tree}

theorem strip?_inside {a : Tree} (ha : v.passes a = true) (h : f.strip? a = some g) : g.inside v = f.inside v := by
  obtain ⟨c, before, after, hsame, hattrs, rfl⟩ := strip?_inv h
  have hpasses : v.passes c = true := by rw [← v.passes_unplaced, Tree.unplaced_of_same hsame, v.passes_unplaced, ha]
  have hkept : (before ++ after).all v.passes = f.attrs.all v.passes := by simp [hattrs, hpasses]
  rw [Function.inside, Function.inside, hkept]

/-- Where blocks are not put to the test, a probe whose plan passes leaves the function passing as it did. -/
theorem Succeeds.inside_use {strip : Option Tree} {p : Probed} (huse : v.kind = .useItem) (h : Succeeds plan strip name f p)
    (hbody : f.body = some body) (hform : IsBody body) (hpass : plan.Passes v)
    (hstrip : ∀ a, strip = some a → v.passes a = true) : p.item.inside v = f.inside v := by
  obtain ⟨f', hf', hinside⟩ := h.inside hbody hform hpass fun _ => ⟨v.opens_of_use huse _, fun _ _ => v.opens_of_use huse _⟩
  rw [hinside]
  cases strip with
  | none => rw [Option.some.inj hf']
  | some a => exact strip?_inside (hstrip a rfl) hf'

variable {asks : List Ask} {ps : List Probed}

/-- What an ask puts in and takes away passes. -/
def Ask.Passes (v : Survey) (a : Ask) : Prop :=
  ∀ plan, a.planned = .ok plan → plan.Passes v ∧ ∀ attr, a.strip = some attr → v.passes attr = true

theorem Ask.Chain.inside (huse : v.kind = .useItem) (h : Ask.Chain name f asks ps g) (hbody : f.body = some body)
    (hform : IsBody body) (hasks : ∀ a ∈ asks, a.Passes v) : g.inside v = f.inside v := by
  induction h generalizing body with
  | done f => rfl
  | next ha _ ih =>
    obtain ⟨hfirst, hrest⟩ := List.forall_mem_cons.mp hasks
    obtain ⟨plan, hplan, hsucceeds⟩ := Ask.apply_inv ha
    obtain ⟨hpass, hstrip⟩ := hfirst plan hplan
    obtain ⟨b, hb, hb'⟩ := hsucceeds.isBody hbody hform
    rw [ih hb hb' hrest, hsucceeds.inside_use huse hbody hform hpass hstrip]

theorem Ask.Chain.vis (h : Ask.Chain name f asks ps g) : g.vis = f.vis := by
  induction h with
  | done => rfl
  | next ha _ ih =>
    obtain ⟨plan, -, hsucceeds⟩ := Ask.apply_inv ha
    rw [ih, hsucceeds.vis]

/-! ### Items -/

theorem passes_detailsConst (vis : Tree) (n function before after : String) :
    v.passes (detailsConst vis n function before after) = v.passes vis := by
  simp (disch := decide) [detailsConst, Survey.passes_other, Survey.passes_group, Tree.list, Make.terminated, Make.word,
    Make.symbol, Make.string, passes_literal, passes_listAttr]

theorem passes_memberConst (vis : Tree) (n function before after : String) :
    v.passes (memberConst (detailsConst vis n function before after)) = v.passes vis := by
  simp (disch := decide) [detailsConst, memberConst, Survey.passes_other, Survey.passes_group, Tree.list, Make.terminated,
    Make.word, Make.symbol, Make.string, passes_literal, passes_listAttr]

/-- A function where it stands. -/
theorem inside_of_isBody (huse : v.kind = .useItem) (hbody : f.body = some body) (hform : IsBody body) :
    f.inside v = (f.attrs.all v.passes && (v.passes f.vis && (v.passes f.sig && v.passes body))) := by
  rw [passes_body hform, v.opens_of_use huse, Bool.true_and, Function.inside, hbody, Option.all_some]

theorem inside_ofParts {Q : Tree → Prop} (huse : v.kind = .useItem) {attrs : List Tree} {vis sig : Tree} (h : BodyForm Q body) :
    (Function.ofParts (.node .attrs attrs) vis sig body).inside v =
      (attrs.all v.passes && (v.passes vis && (v.passes sig && v.passes body))) := by
  obtain ⟨o, inner, ss, c, rfl, -⟩ := h
  have hinside : (Function.ofParts (.node .attrs attrs) vis sig
      (.node .block [.group .brace o [.node .attrs inner, .node .stmts ss] c])).inside v =
      ((attrs ++ inner).all v.passes && (v.passes vis && (v.passes sig && ss.all v.passes))) := rfl
  rw [hinside, Survey.passes_other _ _ (by decide) (by decide), List.all_cons, Survey.passes_group, List.all_cons, List.all_cons,
    Survey.passes_stmts, v.opens_of_use huse, Survey.passes_other _ inner (by decide) (by decide), List.all_append]
  cases attrs.all v.passes <;> cases inner.all v.passes <;> simp

variable {r : Request} {x : Reached}

/-- All code that the plans for a function put in passes. -/
def Request.PlansPass (v : Survey) (r : Request) (x : Reached) : Prop :=
  ∀ a ∈ r.asksOf x, ∀ plan, a.planned = .ok plan → plan.Passes v

theorem mem_asksOf {a : Ask} {attr : Tree} (h : a ∈ r.asksOf x) (hattr : a.strip = some attr) :
    attr ∈ x.function.attrs ∧ ∃ m, a = .marked m attr := by
  have hmarkers : a ∈ r.markers x.function.attrs := by
    unfold Request.asksOf Request.asks at h
    split at h
    · split at h
      · obtain ⟨plan, -, rfl⟩ := Option.map_eq_some_iff.mp (Option.mem_toList.mp h)
        cases hattr
      · cases h
    · exact h
  obtain ⟨b, hb, hmarked⟩ := List.mem_filterMap.mp hmarkers
  obtain ⟨m, -, rfl⟩ := Option.map_eq_some_iff.mp hmarked
  obtain rfl := Option.some.inj hattr
  exact ⟨hb, m, rfl⟩

theorem asks_pass (hattrs : ∀ a ∈ x.function.attrs, AttrPasses v a) (hplans : r.PlansPass v x) :
    ∀ a ∈ r.asksOf x, a.Passes v := by
  intro a ha plan hplan
  refine ⟨hplans a ha plan hplan, fun attr hattr => ?_⟩
  obtain ⟨hmem, m, rfl⟩ := mem_asksOf ha hattr
  exact passes_of_planned (hattrs attr hmem) hplan

/-- What becomes of a function that was read passes as it did, and so do the constants that are asked for with it. -/
theorem Probes.inside (huse : v.kind = .useItem) {attrs : List Tree} {vis sig : Tree}
    (hx : x.function = .ofParts (.node .attrs attrs) vis sig body) (hattrs : ∀ a ∈ attrs, AttrPasses v a)
    (hbody : BodyForm (AttrPasses v) body) (h : Probes r x) (hplans : r.PlansPass v x) :
    r.change? x = none ∨ ∃ g consts b, r.change? x = some (g, consts) ∧ g.body = some b ∧
      (g.attrs.all v.passes && (v.passes vis && (v.passes g.sig && v.passes b))) =
        (attrs.all v.passes && (v.passes vis && (v.passes sig && v.passes body))) ∧
      ∀ c ∈ consts, v.passes c = v.passes vis ∧ v.passes (memberConst c) = v.passes vis := by
  obtain ⟨b, hb, hb'⟩ := ofParts_body (.node .attrs attrs) vis sig hbody
  rw [← hx] at hb
  rcases h.left hb hb' with ⟨hnone, -⟩ | ⟨done, g, b', hsome, hchain, hg, hform⟩
  · exact .inl hnone
  · have hall : ∀ a ∈ x.function.attrs, AttrPasses v a := by
      obtain ⟨o, inner, ss, c, rfl, hinner⟩ := hbody
      rw [hx]
      exact List.forall_mem_append.mpr ⟨hattrs, hinner⟩
    have hvis : x.function.vis = vis := by rw [hx, vis_ofParts]
    have hinside := hchain.inside huse hb hb' (asks_pass hall hplans)
    rw [inside_of_isBody huse hg hform, hchain.vis, hvis, hx, inside_ofParts huse hbody] at hinside
    refine .inr ⟨g, _, b', hsome, hg, hinside, fun c hc => ?_⟩
    obtain ⟨n, before, after, rfl⟩ := hchain.details c hc
    rw [passes_detailsConst, passes_memberConst, hvis]
    exact ⟨rfl, rfl⟩

theorem all_of_const {consts : List Tree} {p : Tree → Bool} {passed : Bool} (h : ∀ c ∈ consts, p c = passed) {here : Bool}
    (hhere : here = true → passed = true) : (here && consts.all p) = here := by
  cases here with
  | false => rfl
  | true =>
    rw [Bool.true_and, List.all_eq_true]
    intro c hc
    rw [h c hc, hhere rfl]

theorem passes_attrs (attrs : List Tree) : v.passes (.node .attrs attrs) = attrs.all v.passes :=
  v.passes_other attrs (by decide) (by decide)

theorem passes_editMethod (huse : v.kind = .useItem) {scope : String} {t : Tree} (ofTrait : Bool) (hform : MethodForm (AttrPasses v) t)
    (h : ∀ x ∈ reachedMethod scope t, Probes r x ∧ r.PlansPass v x) :
    (r.editMethod scope ofTrait t).all v.passes = v.passes t := by
  cases hform with
  | @method attrs vis dflt sig body hattrs hbody =>
    obtain ⟨attrs, rfl, hattrs⟩ := hattrs
    obtain ⟨hprobes, hplans⟩ := h _ (by rw [reachedMethod]; exact List.mem_singleton_self _)
    simp only [Request.editMethod]
    rcases hprobes.inside huse rfl hattrs hbody hplans with hnone | ⟨g, consts, b, hsome, hg, hinside, hconsts⟩
    · rw [hnone, List.all_cons, List.all_nil, Bool.and_true]
    · have hmember : ∀ as sig body, v.passes (.node .methodItem [.node .attrs as, vis, dflt, sig, body]) =
          (v.passes dflt && (as.all v.passes && (v.passes vis && (v.passes sig && v.passes body)))) := by
        intro as sig body
        rw [Survey.passes_other _ _ (by decide) (by decide)]
        simp only [List.all_cons, List.all_nil, Bool.and_true, passes_attrs, Bool.and_left_comm (v.passes dflt)]
      rw [hsome]
      dsimp only
      rw [hg, Option.getD_some, List.all_cons, hmember, hmember, hinside]
      cases ofTrait with
      | true => exact Bool.and_true _
      | false =>
        refine all_of_const (fun c hc => ?_) (fun hhere => by simp at hhere; exact hhere.2.2.1)
        obtain ⟨const, hconst, rfl⟩ := List.mem_map.mp hc
        exact (hconsts const hconst).2
  | other hk => rw [editMethod_other fun _ _ _ _ _ he => hk (Tree.node.inj he).1, List.all_cons, List.all_nil, Bool.and_true]

theorem passes_editTraitFn (huse : v.kind = .useItem) {scope : String} {t : Tree} (hform : TraitFnForm (AttrPasses v) t)
    (h : ∀ x ∈ reachedTraitFn scope t, Probes r x ∧ r.PlansPass v x) : v.passes (r.editTraitFn scope t) = v.passes t := by
  cases hform with
  | @provided attrs sig body hattrs hbody =>
    obtain ⟨attrs, rfl, hattrs⟩ := hattrs
    obtain ⟨hprobes, hplans⟩ := h _ (by rw [reachedTraitFn]; exact List.mem_singleton_self _)
    simp only [Request.editTraitFn]
    rcases hprobes.inside huse rfl hattrs hbody hplans with hnone | ⟨g, consts, b, hsome, hg, hinside, hconsts⟩
    · rw [hnone]
    · rw [hsome]
      dsimp only
      rw [hg, Option.getD_some, Survey.passes_other _ _ (by decide) (by decide), Survey.passes_other _ _ (by decide) (by decide)]
      simpa only [List.all_cons, List.all_nil, Bool.and_true, passes_attrs, v.passes_absent, Bool.true_and] using hinside
  | @required attrs sig semi =>
    obtain ⟨hprobes, -⟩ := h _ (by rw [reachedTraitFn]; exact List.mem_singleton_self _)
    obtain ⟨hnone, -⟩ := hprobes.left_of_none rfl
    simp only [Request.editTraitFn]
    rw [hnone]
  | other hk => rw [editTraitFn_other fun _ _ _ he => hk (Tree.node.inj he).1]

theorem passes_editAll {items : List Tree} (h : ∀ t ∈ items, (∀ x ∈ reached t, Probes r x ∧ r.PlansPass v x) → (r.edit t).all v.passes = v.passes t)
    (hreached : ∀ x ∈ reachedAll items, Probes r x ∧ r.PlansPass v x) : (r.editAll items).all v.passes = items.all v.passes := by
  induction items with
  | nil => rw [Request.editAll]
  | cons t ts ih =>
    rw [reachedAll] at hreached
    obtain ⟨hhere, hrest⟩ := List.forall_mem_append.mp hreached
    rw [Request.editAll, List.all_append, List.all_cons, h t (by simp) hhere, ih (fun u hu => h u (by simp [hu])) hrest]

/-- An item passes after the pass as it did before. -/
theorem passes_edit (huse : v.kind = .useItem) {t : Tree} (hform : ItemForm (AttrPasses v) t)
    (h : ∀ x ∈ reached t, Probes r x ∧ r.PlansPass v x) : (r.edit t).all v.passes = v.passes t := by
  induction hform with
  | @free attrs vis sig body hattrs hbody =>
    obtain ⟨attrs, rfl, hattrs⟩ := hattrs
    obtain ⟨hprobes, hplans⟩ := h _ (by rw [reached]; exact List.mem_singleton_self _)
    simp only [Request.edit]
    rcases hprobes.inside huse rfl hattrs hbody hplans with hnone | ⟨g, consts, b, hsome, hg, hinside, hconsts⟩
    · rw [hnone, List.all_cons, List.all_nil, Bool.and_true]
    · have hitem : ∀ as sig body, v.passes (.node .fnItem [.node .attrs as, vis, sig, body]) =
          (as.all v.passes && (v.passes vis && (v.passes sig && v.passes body))) := by
        intro as sig body
        rw [Survey.passes_other _ _ (by decide) (by decide)]
        simp only [List.all_cons, List.all_nil, Bool.and_true, passes_attrs]
      rw [hsome]
      dsimp only
      rw [hg, Option.getD_some, List.all_cons, hitem, hitem, hinside]
      exact all_of_const (fun c hc => (hconsts c hc).1) (fun hhere => by simp at hhere; exact hhere.2.1)
  | @module attrs vis u m n inner d o c items hitems ih =>
    have hall := passes_editAll ih (by simpa only [reached] using h)
    simp only [Request.edit]
    simp (disch := decide) only [Survey.passes_other, Survey.passes_group, List.all_cons, List.all_nil, Bool.and_true, hall]
  | elsewhere => exact Bool.and_true _
  | @implementation attrs dflt u i gs of self w inner d o c members hmembers =>
    have hall : (members.flatMap (r.editMethod (typeName self) of.isPresent)).all v.passes = members.all v.passes := by
      have hmember : ∀ m ∈ members, (r.editMethod (typeName self) of.isPresent m).all v.passes = v.passes m := by
        refine fun m hm => passes_editMethod huse _ (hmembers m hm) fun x hx => h x ?_
        simp only [reached]
        exact List.mem_flatMap.mpr ⟨m, hm, hx⟩
      rw [List.all_flatMap, Bool.eq_iff_iff, List.all_eq_true, List.all_eq_true]
      exact forall₂_congr fun m hm => by rw [hmember m hm]
    simp only [Request.edit]
    simp (disch := decide) only [Survey.passes_other, Survey.passes_group, List.all_cons, List.all_nil, Bool.and_true, hall]
  | @trait attrs vis u a t n gs colon bs w inner d o c members hmembers =>
    have hall : (members.map (r.editTraitFn n.text)).all v.passes = members.all v.passes := by
      refine v.all_congr fun m hm => passes_editTraitFn huse (hmembers m hm) fun x hx => h x ?_
      simp only [reached]
      exact List.mem_flatMap.mpr ⟨m, hm, hx⟩
    simp only [Request.edit]
    simp (disch := decide) only [Survey.passes_other, Survey.passes_group, List.all_cons, List.all_nil, Bool.and_true, hall]
  | other hk => rw [edit_other hk, List.all_cons, List.all_nil, Bool.and_true]

theorem passes_editFile (huse : v.kind = .useItem) {ts : List TokenTree} {file : Tree} (h : Grammar.parseFile ts = .ok file)
    (hreached : ∀ x ∈ reachedIn file, Probes r x ∧ r.PlansPass v x) : v.passes (r.editFile file) = v.passes file := by
  obtain ⟨attrs, items, rfl, hitems⟩ := parseFile_items outerAttr_passes innerAttr_passes h
  have hall := passes_editAll (fun t ht hx => passes_edit huse (hitems t ht) hx) hreached
  simp (disch := decide) only [Request.editFile, Survey.passes_other, List.all_cons, List.all_nil, Bool.and_true, hall]

/-- A pass changes the imports of a file by code that the plans put in only. -/
theorem imports_editFile {ts : List TokenTree} {file : Tree} (h : Grammar.parseFile ts = .ok file)
    (hprobes : ∀ x ∈ reachedIn file, Probes r x)
    (hplans : ∀ x ∈ reachedIn file, ∀ a ∈ r.asksOf x, ∀ plan, a.planned = .ok plan → ∀ code, plan.Inserts code →
      bringsInProfile code = false) : Imports.ofFile (r.editFile file) = Imports.ofFile file := by
  have hpasses : importing.passes (r.editFile file) = importing.passes file := by
    refine passes_editFile rfl h fun x hx => ⟨hprobes x hx, fun a ha plan hplan code hcode => ?_⟩
    rw [passes_importing, hplans x hx a ha plan hplan code hcode]
    rfl
  rw [passes_importing, passes_importing] at hpasses
  exact congrArg Imports.mk (Bool.not_inj hpasses)

/-! ### Plans that bring in nothing -/

theorem passes_rootMacro (names : List String) : v.passes (Make.rootMacro names) = true := by
  simp (disch := decide) [Make.rootMacro, Make.symbol, Make.parens, Survey.passes_other, Survey.passes_group]

theorem passes_toStatic (huse : v.kind = .useItem) (site : Site) : v.passes site.toStatic = true := by
  have hcomma : v.passes (Make.symbol ",") = true := rfl
  have hlocation : (if 0 < site.line then
      [Make.literal (toString site.line ++ "u32"), Make.literal (toString (max site.endLine site.line) ++ "u32"),
        Make.literal (toString site.column ++ "u32")]
    else [Make.rootMacro ["core", "line"], Make.rootMacro ["core", "line"], Make.rootMacro ["core", "column"]]).all v.passes = true := by
    split <;> simp [passes_literal, passes_rootMacro]
  simpa (disch := decide) only [Site.toStatic, Make.blockExpr, Make.string, Make.terminated, Survey.passes_other, passes_block,
    v.opens_of_use huse, passes_itemStmt, passes_staticItem, passes_rootType, passes_lastExpr, passes_reference, passes_rootMacro,
    Survey.passes_call, passes_rootPath, passes_literal, hcomma, List.all_cons, List.all_nil, List.all_append, List.all_flatMap,
    Survey.passes_noAttrs, Survey.passes_absent, Bool.true_and, Bool.and_true] using hlocation

theorem passes_guardArg (huse : v.kind = .useItem) {wrapper code : Tree} {site : Site} {args : List Tree}
    (hcallee : isCallee wrapper = true) (hwrapper : v.passes wrapper = true) (hargs : guardArgs wrapper site.toStatic = .ok args)
    (hcode : code ∈ args) : v.passes code = true := by
  rw [guardArgs, if_pos hcallee] at hargs
  obtain rfl := Except.ok.inj hargs
  obtain rfl := List.mem_singleton.mp hcode
  rw [Survey.passes_call, Survey.passes_other _ _ (by decide) (by decide)]
  simp [hwrapper, passes_toStatic huse]

theorem passes_callbackExpr {callback : Option Tree} {code : Tree}
    (h : ∀ path, callback = some path → isCallee path = true ∧ v.passes path = true) (hcode : callbackExpr callback = .ok code) :
    v.passes code = true := by
  cases callback with
  | none =>
    obtain rfl := Except.ok.inj hcode
    exact passes_rootPath _ _
  | some path =>
    obtain ⟨hcallee, hpath⟩ := h path rfl
    simp only [callbackExpr, hcallee, ↓reduceIte] at hcode
    obtain rfl := Except.ok.inj hcode
    simp (disch := decide) [Survey.passes_call, Survey.passes_other, passes_rootPath, passes_rootType, Make.word, hpath]

/-- The paths that a plan calls, as they are written. -/
def Plan.callees : Plan → List Tree
  | .wrapCalls options => [options.wrapper]
  | .profile options => options.calls.wrapper :: (options.below.toList ++ options.above.toList)

/-- A plan puts in nothing but calls of its paths, if these can be called as they are written. -/
theorem passes_callees (huse : v.kind = .useItem) {plan : Plan}
    (h : ∀ path ∈ plan.callees, isCallee path = true ∧ v.passes path = true) : plan.Passes v := by
  intro code hcode
  cases hcode with
  | guard hargs hmem =>
    obtain ⟨hcallee, hwrapper⟩ := h plan.calls.wrapper (by cases plan <;> exact List.mem_cons_self)
    exact passes_guardArg huse hcallee hwrapper hargs hmem
  | @callback options path _ hpath hcode =>
    refine passes_callbackExpr (fun p hp => h p ?_) hcode
    rcases hpath with rfl | rfl <;> simp [Plan.callees, hp]

end CallProbe.Probe
