import CallProbe.Proofs.Marked.Printing
import CallProbe.Proofs.Pass.Parsed
import CallProbe.Proofs.Probe.Steps

/-! # What a probe keeps

A function is read with a block for its body, and no transform changes that, nor the visibility or the attributes that are
there; one attribute may be added, and only once. Attributes without values are printed and read back as they are. -/

namespace CallProbe.Probe

open Source Parse Layout

/-! ### Bodies -/

/-- A body without inner attributes: statements in braces. -/
def IsBody (t : Tree) : Prop := ∃ d o ss c, t = .node .block [.group d o [.noAttrs, .node .stmts ss] c]

theorem IsBody.wrapTree {t : Tree} (h : IsBody t) (options : CallOptions) (name : String) :
    IsBody (options.wrapTree name t) := by
  obtain ⟨d, o, ss, c, rfl⟩ := h
  refine ⟨d, o, ss.map (options.wrapTree name), c, ?_⟩
  rw [CallOptions.wrapTree_of_isOpen _ _ rfl, List.map_singleton, CallOptions.wrapTree_group]
  simp [Tree.noAttrs, CallOptions.wrapTree_of_isOpen _ _ (k := .attrs) rfl,
    CallOptions.wrapTree_of_isOpen _ _ (k := .stmts) rfl]

theorem IsBody.withStmts {t : Tree} (h : IsBody t) (change : List Tree → List Tree) : IsBody (withStmts change t) := by
  obtain ⟨d, o, ss, c, rfl⟩ := h
  exact ⟨d, o, change ss, c, rfl⟩

theorem IsBody.grouped {t : Tree} (h : IsBody t) : IsBody t.grouped := by
  obtain ⟨d, o, ss, c, rfl⟩ := h
  exact ⟨d, o, Grouping.trees .least ss, c, rfl⟩

theorem IsBody.withInnerAttrs {t : Tree} (h : IsBody t) : Function.withInnerAttrs [] t = t := by
  obtain ⟨d, o, ss, c, rfl⟩ := h
  rfl

/-! ### Functions that are read -/

section
variable {Q : Tree → Prop}

/-- A function as it is read: all that is known of attributes holds of its own, and its body is a block. -/
structure FunctionForm (Q : Tree → Prop) (f : Function) : Prop where
  attrs : ∀ a ∈ f.attrs, Q a
  body : ∀ b, f.body = some b → IsBody b

theorem form_ofParts {attrs vis sig body : Tree} (hattrs : AttrsForm Q attrs) (hbody : BodyForm Q body) :
    FunctionForm Q (.ofParts attrs vis sig body) := by
  obtain ⟨as, rfl, has⟩ := hattrs
  obtain ⟨o, inner, ss, c, rfl, hinner⟩ := hbody
  refine ⟨List.forall_mem_append.mpr ⟨has, hinner⟩, fun b hb => ?_⟩
  obtain rfl := Option.some.inj hb
  exact ⟨.brace, o, ss, c, rfl⟩

theorem outerStyle_form {a : Tree} (h : AttrForm a) : AttrForm (Function.outerStyle a) := by
  cases h with
  | attr pound hbang o hinside c => exact .attr pound (.inl rfl) o hinside c

theorem Function.reader_form : Gives (FunctionForm AttrForm) (Function.reader Grammar.reach) := by
  refine .bind_of (outerAttrs_gives outerAttr_form) fun attrs hattrs => .bind fun vis => .bind fun sig => .bind fun ts => ?_
  obtain ⟨as, rfl, has⟩ := hattrs
  refine .ite (.bind fun _ => .pure ⟨has, fun b hb => by cases hb⟩) ?_
  refine .bind_of (Q := BodyForm AttrForm) (fun ts t rest h => block_gives innerAttr_form ts t rest h) ?_
  rintro t ⟨o, inner, ss, c, rfl, hinner⟩
  refine .pure ⟨List.forall_mem_append.mpr ⟨has, fun a ha => ?_⟩, fun b hb => ?_⟩
  · obtain ⟨a', ha', rfl⟩ := List.mem_map.mp ha
    exact outerStyle_form (hinner a' ha')
  · obtain rfl := Option.some.inj hb
    exact ⟨.brace, o, ss, c, rfl⟩

theorem Function.form_of_parse {ts : List TokenTree} {f : Function} (h : Function.parse ts = .ok f) :
    FunctionForm AttrForm f := by
  rw [Function.parse, Grammar.parseWith] at h
  split at h
  · rename_i hread
    cases h
    exact Function.reader_form.holds hread
  · cases h
  · cases h

end

/-! ### What a plan leaves alone -/

/-- What no transform changes: the visibility, the attributes that are there, that attributes are as they are read, and
    that the body has no inner ones. -/
structure Keeps (f g : Function) : Prop where
  vis : g.vis = f.vis
  attrs : f.attrs <+: g.attrs
  read : (∀ a ∈ f.attrs, IsAttr a) → ∀ a ∈ g.attrs, IsAttr a
  body : ∃ b, g.body = some b ∧ IsBody b

theorem isAttr_listAttr (n argument : String) : IsAttr (Function.listAttr n argument) :=
  ⟨_, _, _, _, _, rfl, .inl rfl⟩

theorem Keeps.allowUnreachable {f g : Function} (h : Keeps f g) : Keeps f g.allowUnreachable := by
  cases ha : g.hasAttr (Function.listAttr "allow" "unreachable_code") with
  | true =>
    have hg : g.allowUnreachable = g := if_pos ha
    rwa [hg]
  | false =>
    have hg : g.allowUnreachable = { g with attrs := g.attrs ++ [Function.listAttr "allow" "unreachable_code"] } :=
      if_neg (by simp [ha])
    rw [hg]
    refine ⟨h.vis, h.attrs.trans (List.prefix_append _ _), fun hf => ?_, h.body⟩
    exact List.forall_mem_append.mpr ⟨h.read hf, List.forall_mem_singleton.mpr (isAttr_listAttr ..)⟩

theorem keeps_withBody (f : Function) {b : Tree} (h : IsBody b) : Keeps f { f with body := some b } :=
  ⟨rfl, List.prefix_rfl, id, b, rfl, h⟩

theorem CallOptions.apply_keeps {options : CallOptions} {name : String} {f g : Function} {body : Tree} {count : Nat}
    (hbody : f.body = some body) (hb : IsBody body) (h : options.apply name f = .ok (g, count)) : Keeps f g := by
  unfold CallOptions.apply at h
  rw [hbody] at h
  dsimp only at h
  rw [wrapBlock_eq] at h
  have hwrapped := keeps_withBody f (hb.wrapTree options name)
  split at h
  · cases h
  · split at h
    · cases h
    · rename_i heq
      obtain ⟨⟨rfl, rfl⟩, -⟩ : (options.wrapTree name body = _ ∧ _ = _) ∧ _ := by simpa only [Prod.mk.injEq] using heq
      obtain ⟨rfl, -⟩ := Prod.mk.inj (Except.ok.inj h)
      split
      · exact hwrapped
      · exact hwrapped.allowUnreachable

theorem ProfileOptions.apply_keeps {options : ProfileOptions} {name : String} {f g : Function} {body : Tree}
    {count : Nat} (hbody : f.body = some body) (hb : IsBody body) (h : options.apply name f = .ok (g, count)) :
    Keeps f g := by
  unfold ProfileOptions.apply at h
  rw [hbody] at h
  dsimp only at h
  split at h
  · cases h
  · split at h
    · cases h
    · split at h
      · split at h
        · cases h
        · obtain ⟨rfl, -⟩ := Prod.mk.inj (Except.ok.inj h)
          exact (keeps_withBody f (hb.withStmts _)).allowUnreachable
      · obtain ⟨rfl, -⟩ := Prod.mk.inj (Except.ok.inj h)
        exact keeps_withBody f (hb.withStmts _)

theorem Keeps.trans {f g k : Function} (hfg : Keeps f g) (hgk : Keeps g k) : Keeps f k :=
  ⟨hgk.vis.trans hfg.vis, hfg.attrs.trans hgk.attrs, hgk.read ∘ hfg.read, hgk.body⟩

theorem Plan.transform_keeps {plan : Plan} {name : String} {f g : Function} {body : Tree} {count : Nat}
    (hbody : f.body = some body) (hb : IsBody body) (h : plan.transform name f = .ok (g, count)) : Keeps f g := by
  cases plan with
  | wrapCalls options => exact CallOptions.apply_keeps hbody hb h
  | profile options =>
    cases hwrapped : options.calls.apply name f with
    | error halt =>
      simp [Plan.transform, hwrapped, bind, Except.bind] at h
    | ok r =>
      obtain ⟨f', n⟩ := r
      have hkeeps := CallOptions.apply_keeps hbody hb hwrapped
      obtain ⟨body', hbody', hb'⟩ := hkeeps.body
      cases hprofiled : options.apply name f' with
      | error halt => simp [Plan.transform, hwrapped, hprofiled, bind, Except.bind] at h
      | ok r =>
        obtain ⟨g', m⟩ := r
        obtain ⟨rfl, -⟩ : g' = g ∧ n + m = count := by
          simpa [Plan.transform, hwrapped, hprofiled, bind, Except.bind, pure, Except.pure] using h
        exact hkeeps.trans (ProfileOptions.apply_keeps hbody' hb' hprofiled)

/-! ### What is printed -/

theorem render_ok {f : Function} {body : Tree} : (∃ s, f.render body = .ok s) ↔ Prints (f.toItem body) := by
  rw [Function.render, textOfItems_ok, List.forall_mem_singleton]

theorem toItem_outer {f : Function} {body : Tree} (h : ∀ a ∈ f.attrs, isInnerAttr a = false) (hb : IsBody body) :
    f.toItem body = .node .fnItem [.node .attrs f.attrs, f.vis, f.sig, body] := by
  have houter : f.attrs.filter (!isInnerAttr ·) = f.attrs := List.filter_eq_self.mpr fun a ha => by simp [h a ha]
  have hinner : f.attrs.filter isInnerAttr = [] := List.filter_eq_nil_iff.mpr fun a ha => by simp [h a ha]
  rw [Function.toItem, houter, hinner, hb.withInnerAttrs]

/-! ### Attributes without values -/

section
variable {c : Grouping.Caution}

theorem tree_of_part {t : Tree} (h : PartForm t) : Grouping.tree c {} t = t := by
  cases h with
  | leaf l => rfl
  | name l => rw [Grouping.tree_node (by simp [Grouping.partCount?])]; rfl

theorem tree_of_names {t : Tree} (h : NamesForm t) : Grouping.tree c {} t = t := by
  cases h with
  | @path lead parts hlead hparts =>
    have hlead : Grouping.tree c {} lead = lead := by rcases hlead with rfl | ⟨l, rfl⟩ <;> rfl
    have hlist : Grouping.tree c {} (.list parts) = .list parts := by
      rw [Tree.list, Grouping.tree_node (by simp [Grouping.partCount?]),
        List.map_congr_left fun t ht => tree_of_part (hparts t ht), List.map_id']
    rw [Grouping.tree_node (by simp [Grouping.partCount?]), List.map_cons, List.map_singleton, hlead, hlist]

/-- An attribute has a value, such as `#[doc = "…"]`. -/
def hasValue (a : Tree) : Bool :=
  match Probe.attrMeta a with
  | .node .metaNameValue (_ :: _) => true
  | _ => false

theorem hasValue_of_planned {m : Marker} {a : Tree} {plan : Plan} (hplan : Plan.ofAttr m a = .ok plan) :
    hasValue a = false := by
  unfold hasValue
  split
  · rename_i hmeta
    rw [Plan.ofAttr, hmeta] at hplan
    cases hplan
  · rfl

/-- Parentheses are put into the values of attributes only. -/
theorem tree_of_attr {a : Tree} (h : AttrForm a) (hvalue : hasValue a = false) : Grouping.tree c {} a = a := by
  cases h with
  | @attr pound bang hbang o inside hinside cl =>
    have hbang : Grouping.tree c {} bang = bang := by rcases hbang with rfl | ⟨l, rfl⟩ <;> rfl
    have hinside : Grouping.tree c {} inside = inside := by
      cases hinside with
      | path hpath => rw [Grouping.tree_node (by simp [Grouping.partCount?]), List.map_singleton, tree_of_names hpath]
      | tokens hpath =>
        rw [Grouping.tree_node (by simp [Grouping.partCount?]), List.map_cons, List.map_singleton, tree_of_names hpath]
        rfl
      | value => cases hvalue
    have hgroup : Grouping.tree c {} (.group .bracket o [inside] cl) = .group .bracket o [inside] cl := by
      rw [Grouping.tree_group, List.map_singleton, hinside]
    rw [Grouping.tree_node (by simp [Grouping.partCount?])]
    simp only [List.map_cons, List.map_nil, hbang, hgroup]
    rfl

end

variable {name : String} {f g : Function} {body : Tree} {plan : Plan} {count : Nat}

/-! ### The attribute that a transform may add -/

/-- A function with the attributes of another one, or with one more that was not among them. -/
def Adds (f g : Function) : Prop := g.attrs = f.attrs ∨ allowAttr ∉ f.attrs ∧ g.attrs = f.attrs ++ [allowAttr]

/-- The attribute is added once, however often it is asked for. -/
theorem Adds.allowUnreachable {k : Function} (h : Adds f g) (hk : k.attrs = g.attrs) : Adds f k.allowUnreachable := by
  rcases h with h | ⟨hnot, h⟩
  · cases hhas : k.hasAttr allowAttr with
    | true =>
      rw [allowUnreachable_of_hasAttr hhas]
      exact .inl (hk.trans h)
    | false =>
      refine .inr ⟨fun hmem => ?_, ?_⟩
      · have hall := List.any_eq_false.mp hhas allowAttr (by rw [hk, h]; exact hmem)
        exact hall (Tree.same_refl _)
      · rw [Function.allowUnreachable, if_neg (by rw [hhas]; simp), hk, h]
  · have hhas : k.hasAttr allowAttr = true := by simp [Function.hasAttr, hk, h, Tree.same_refl]
    rw [allowUnreachable_of_hasAttr hhas]
    exact .inr ⟨hnot, hk.trans h⟩

theorem CallOptions.apply_adds {options : CallOptions} (hbody : f.body = some body)
    (h : options.apply name f = .ok (g, count)) : Adds f g := by
  obtain ⟨-, rfl | rfl⟩ := CallOptions.apply_inv hbody h
  · exact .inl rfl
  · exact Adds.allowUnreachable (f := f) (g := f) (.inl rfl) rfl

theorem Plan.transform_adds (hbody : f.body = some body) (h : plan.transform name f = .ok (g, count)) : Adds f g := by
  cases plan with
  | wrapCalls options => exact CallOptions.apply_adds hbody h
  | profile options =>
    cases hcalls : options.calls.apply name f with
    | error halt => simp [Plan.transform, hcalls, bind, Except.bind] at h
    | ok wrapped =>
      obtain ⟨f', n⟩ := wrapped
      obtain ⟨-, -, -, -, hb⟩ := CallOptions.apply_changes hbody hcalls
      have hadds := CallOptions.apply_adds hbody hcalls
      cases hprofile : options.apply name f' with
      | error halt => simp [Plan.transform, hcalls, hprofile, bind, Except.bind] at h
      | ok profiled =>
        obtain ⟨g', m⟩ := profiled
        obtain ⟨rfl, -⟩ : g' = g ∧ n + m = count := by
          simpa [Plan.transform, hcalls, hprofile, bind, Except.bind, pure, Except.pure] using h
        obtain ⟨item, -, ⟨-, rfl⟩ | ⟨-, rfl⟩⟩ := ProfileOptions.apply_inv hb hprofile
        · exact hadds
        · exact hadds.allowUnreachable rfl

end CallProbe.Probe
