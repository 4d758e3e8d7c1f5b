import CallProbe.Proofs.Probe.Kept

/-! # A marker and a marked file

A marker is expanded by the compiler, on the tokens of the function under it, or by going through the file that the
function stands in. `instrument_agrees_with_expand` compares the two on a file with one marked function. They give the
same item and the same constant, except for the text of the function before, which has the marker in a file. The one
difference is in what they accept: by `rebuild_ok` inner attributes of a body, which stay inner in a file, end the probe
there, while the reader of functions made them outer ones for the compiler. -/

namespace CallProbe.Probe

open Source Parse Layout

/-- What a probe produced, had the text of the function before been another one. -/
def Probed.withBefore (r : Probed) (plan : Plan) (before : String) : Probed :=
  { r with
    sourceBefore := before
    details := plan.calls.details.map fun n => detailsConst r.item.vis n r.function before r.sourceAfter }

/-- The text before is only told, in a constant if it was asked for. -/
theorem rebuild_withBefore (f : Function) (name : String) (plan : Plan) (body : Tree) (before before' : String) :
    rebuild f name plan body before' = (rebuild f name plan body before).map (·.withBefore plan before') := by
  unfold rebuild
  cases plan.transform name f with
  | error halt => cases halt <;> rfl
  | ok r =>
    change (if (!r.1.readsBack) = true then _ else _) = Except.map _ (if (!r.1.readsBack) = true then _ else _)
    split
    · rfl
    · cases r.1.grouped.render (r.1.grouped.body.getD body) <;> rfl

/-! ### Attributes that are read back -/

theorem kind?_tree (c : Grouping.Caution) (s : Grouping.Surroundings) (t : Tree) :
    (Grouping.tree c s t).kind? = t.kind? ∨ (Grouping.tree c s t).kind? = some .parenExpr := by
  cases t with
  | node k cs =>
    by_cases hform : Grouping.partCount? k = some cs.length
    · obtain ⟨cs', -, htree | htree⟩ := Grouping.tree_form (c := c) (s := s) hform
      · exact .inl (by rw [htree]; rfl)
      · exact .inr (by rw [htree]; rfl)
    · exact .inl (by rw [Grouping.tree_node hform]; rfl)
  | _ => exact .inl rfl

theorem isPresent_of_tree {c : Grouping.Caution} {s : Grouping.Surroundings} {t : Tree}
    (h : (Grouping.tree c s t).isPresent = true) : t.isPresent = true := by
  cases hp : t.isPresent with
  | true => rfl
  | false =>
    unfold Tree.isPresent at hp
    split at hp
    · cases h
    · cases hp

/-- Reading a function back makes no attribute an inner one. -/
theorem isInnerAttr_of_grouped {a : Tree} (h : isInnerAttr a.grouped = true) : isInnerAttr a = true := by
  unfold isInnerAttr at h
  split at h
  · rename_i pound bang content hgrouped
    have hkind := kind?_tree .least {} a
    rw [show Grouping.tree .least {} a = _ from hgrouped] at hkind
    obtain ⟨cs, rfl⟩ := Call.kind?_eq_some (hkind.resolve_right (by simp [Tree.kind?])).symm
    have hcs : Grouping.trees .least cs = [pound, bang, content] := (Tree.node.inj hgrouped).2
    rw [trees_eq] at hcs
    obtain ⟨pound', afterPound, rfl, -, hbang⟩ := List.map_eq_cons_iff.mp hcs
    obtain ⟨bang', afterBang, rfl, rfl, hcontent⟩ := List.map_eq_cons_iff.mp hbang
    obtain ⟨content', afterContent, rfl, -, hnil⟩ := List.map_eq_cons_iff.mp hcontent
    obtain rfl := List.map_eq_nil_iff.mp hnil
    exact isPresent_of_tree h
  · cases h

/-! ### Rebuilding -/

/-- A marker in front of a function makes no difference to whether its text can be printed. -/
theorem render_marked {f : Function} {body : Tree} (m : Marker) (place : Nat → Pos) (args : List TokenTree) :
    (∃ s, ({ f with attrs := m.attr place args :: f.attrs } : Function).render body = .ok s) ↔
      ∃ s, f.render body = .ok s := by
  rw [render_ok, render_ok]
  exact prints_marked

/-- What is rebuilt had no inner attributes and can be printed as the item of a file. -/
theorem rebuild_ok {f : Function} {name : String} {plan : Plan} {body : Tree} {before : String} {p : Probed}
    (hattrs : ∀ a ∈ f.attrs, IsAttr a) (hbody : f.body = some body) (hb : IsBody body)
    (h : rebuild f name plan body before = .ok p) : (∀ a ∈ f.attrs, isInnerAttr a = false) ∧ p.sourceBefore = before ∧ p.withBefore plan before = p ∧
      p.item.vis = f.vis ∧
        ∃ b, p.item.body = some b ∧ Prints (.node .fnItem [.node .attrs p.item.attrs, f.vis, p.item.sig, b]) := by
  obtain ⟨g, count, after, htransform, hback, hrender, rfl⟩ := rebuild_eq_ok.mp h
  obtain ⟨hvis, hfirst, hread, b, hg, hgbody⟩ := Plan.transform_keeps hbody hb htransform
  have houter := Function.outer_of_readsBack hback (hread hattrs)
  refine ⟨fun a ha => houter a (hfirst.subset ha), rfl, rfl, hvis, b.grouped, by simp [Plan.probed, Function.grouped, hg], ?_⟩
  have hgrouped : ∀ a ∈ g.grouped.attrs, isInnerAttr a = false := by
    intro a ha
    obtain ⟨a', ha', rfl⟩ := List.mem_map.mp ha
    exact Bool.eq_false_iff.mpr fun hinner =>
      Bool.false_ne_true ((houter a' ha').symm.trans (isInnerAttr_of_grouped hinner))
  have hgbody' : g.grouped.body.getD body = b.grouped := by simp [Function.grouped, hg]
  have hprints := render_ok.mp ⟨after, hrender⟩
  rw [hgbody', toItem_outer hgrouped hgbody.grouped] at hprints
  rw [← hvis]
  exact hprints

/-! ### Probes with and without a marker -/

/-- The function with a marker in front is probed exactly if the function without it is, and only the text before is
    another one. -/
theorem probe_marked_ok {f : Function} {name : String} {plan : Plan} {body : Tree} {q : Probed} (m : Marker)
    (place : Nat → Pos) (args : List TokenTree) (hbody : f.body = some body) :
    probe { f with attrs := m.attr place args :: f.attrs } name plan (some (m.attr place args)) = .ok q ↔
      ∃ before p, ({ f with attrs := m.attr place args :: f.attrs } : Function).render body = .ok before ∧
        probe f name plan none = .ok p ∧ q = p.withBefore plan before := by
  have hstrip : (some (m.attr place args)).elim (some { f with attrs := m.attr place args :: f.attrs })
      ({ f with attrs := m.attr place args :: f.attrs } : Function).strip? = some f := by
    simp [Function.strip?, Function.hasAttr, Tree.same_refl]
  rw [probe_ok (f := { f with attrs := m.attr place args :: f.attrs }) hbody hstrip]
  constructor
  · rintro ⟨before, hrender, hq⟩
    obtain ⟨plain, hplain⟩ := (render_marked m place args).mp ⟨before, hrender⟩
    rw [rebuild_withBefore f name plan body plain] at hq
    cases hp : rebuild f name plan body plain with
    | error e =>
      rw [hp] at hq
      cases hq
    | ok p =>
      rw [hp] at hq
      cases hq
      exact ⟨before, p, hrender, (probe_ok hbody rfl).mpr ⟨plain, hplain, hp⟩, rfl⟩
  · rintro ⟨before, p, hrender, hp, rfl⟩
    obtain ⟨plain, -, hp⟩ := (probe_ok hbody rfl).mp hp
    refine ⟨before, hrender, ?_⟩
    rw [rebuild_withBefore f name plan body plain, hp]
    rfl

/-! ### Going through the file -/

theorem marker?_attr (m : Marker) (place : Nat → Pos) (args : List TokenTree) :
    Imports.marker? ⟨true⟩ (m.attr place args) = some m := by
  cases m <;> rfl

theorem marker?_of_none {a : Tree} (h : Marker.of? a = none) : Imports.marker? ⟨true⟩ a = none := by
  unfold Imports.marker?
  rw [h]

/-- The function that the item of the file is. -/
theorem asks_marked {name : String} {f : Function} (m : Marker) (place : Nat → Pos) (args : List TokenTree)
    (h : ∀ a ∈ f.attrs, Marker.of? a = none) :
    (⟨⟨true⟩, [], none⟩ : Request).asks name { f with attrs := m.attr place args :: f.attrs } =
      [.marked m (m.attr place args)] := by
  have hrest : f.attrs.filterMap (fun a => (Imports.marker? ⟨true⟩ a).map (Ask.marked · a)) = [] :=
    List.filterMap_eq_nil_iff.mpr fun a ha => by rw [marker?_of_none (h a ha)]; rfl
  unfold Request.asks Request.markers
  rw [List.filterMap_cons, marker?_attr, hrest]
  rfl

theorem applyAll_marked {name : String} {f : Function} {plan : Plan} (m : Marker) (place : Nat → Pos)
    (args : List TokenTree) (hplan : Plan.parse m args = .ok plan) :
    Ask.applyAll name f [.marked m (m.attr place args)] =
      (probe f name plan (some (m.attr place args))).map ([·]) := by
  rw [Ask.applyAll_singleton, Ask.apply_marked (show Plan.ofAttr m (m.attr place args) = .ok plan from hplan)]

theorem process_marked {name : String} {f : Function} {plan : Plan} (m : Marker) (place : Nat → Pos)
    (args : List TokenTree) (hplan : Plan.parse m args = .ok plan) (hfree : ∀ a ∈ f.attrs, Marker.of? a = none) :
    ((⟨⟨true⟩, [], none⟩ : Request).process name { f with attrs := m.attr place args :: f.attrs }).run {} =
      (probe { f with attrs := m.attr place args :: f.attrs } name plan (some (m.attr place args))).map fun q =>
        (some (q.item, q.details.toList), { probed := [q] }) := by
  rw [Request.process, asks_marked m place args hfree, applyAll_marked m place args hplan]
  cases probe { f with attrs := m.attr place args :: f.attrs } name plan (some (m.attr place args)) with
  | error e => rfl
  | ok q =>
    have hdetails : [q].filterMap (·.details) = q.details.toList := by cases h : q.details <;> simp [h]
    change _ = Except.ok (some (q.item, q.details.toList), ({ probed := [q] } : Progress))
    rw [← hdetails]
    rfl

/-- The file after its function was probed: the import, the item, and the constant if it was asked for. -/
def rebuiltFile (place : Nat → Pos) (vis body : Tree) (q : Probed) : Tree :=
  .node .file [.noAttrs, .node .items (importItem place ::
    .node .fnItem [.node .attrs q.item.attrs, vis, q.item.sig, q.item.body.getD body] :: q.details.toList)]

theorem instrumentTree_marked {m : Marker} {args : List TokenTree} {plan : Plan} {as : List Tree} {vis sig body : Tree}
    {f : Function} (place : Nat → Pos) (hplan : Plan.parse m args = .ok plan)
    (hf : Function.ofParts (.node .attrs as) vis sig body = f) (hfree : ∀ a ∈ f.attrs, Marker.of? a = none) :
    instrumentTree [] none (.node .file [.noAttrs, .node .items [importItem place,
        .node .fnItem [.node .attrs (m.attr place args :: as), vis, sig, body]]]) =
      (probe { f with attrs := m.attr place args :: f.attrs } f.name plan (some (m.attr place args))).map fun q =>
        (rebuiltFile place vis body q, { probed := [q] }) := by
  have hparts : Function.ofParts (.node .attrs (m.attr place args :: as)) vis sig body =
      { f with attrs := m.attr place args :: f.attrs } := by
    rw [← hf]
    unfold Function.ofParts
    split <;> rfl
  have hitem : ((⟨⟨true⟩, [], none⟩ : Request).item
      (.node .fnItem [.node .attrs (m.attr place args :: as), vis, sig, body])).run {} =
      (probe { f with attrs := m.attr place args :: f.attrs } f.name plan (some (m.attr place args))).map fun q =>
        (.node .fnItem [.node .attrs q.item.attrs, vis, q.item.sig, q.item.body.getD body] :: q.details.toList,
          { probed := [q] }) := by
    have hname : ({ f with attrs := m.attr place args :: f.attrs } : Function).name = f.name := rfl
    rw [Request.item, hparts, StateT.run_bind, hname, process_marked m place args hplan hfree]
    cases probe { f with attrs := m.attr place args :: f.attrs } f.name plan (some (m.attr place args)) <;> rfl
  have himports : Imports.ofFile (.node .file [.noAttrs, .node .items [importItem place,
      .node .fnItem [.node .attrs (m.attr place args :: as), vis, sig, body]]]) = ⟨true⟩ := rfl
  have himport : (⟨⟨true⟩, [], none⟩ : Request).item (importItem place) = pure [importItem place] := rfl
  rw [instrumentTree, himports]
  simp only [Request.items, himport, pure_bind]
  rw [StateT.run_bind, StateT.run_bind, hitem]
  cases probe { f with attrs := m.attr place args :: f.attrs } f.name plan (some (m.attr place args)) with
  | error e => rfl
  | ok q => simp [rebuiltFile, Except.map, StateT.run_pure]

/-- The file can be printed after its function was probed. -/
theorem rebuiltFile_prints {f : Function} {name : String} {plan : Plan} {block body : Tree} {p : Probed}
    (place : Nat → Pos) (before : String) (hattrs : ∀ a ∈ f.attrs, IsAttr a) (hbody : f.body = some block)
    (hb : IsBody block) (hp : probe f name plan none = .ok p) :
    ∃ text, textOfFile (rebuiltFile place f.vis body (p.withBefore plan before)) = .ok text := by
  obtain ⟨plain, -, hrebuild⟩ := (probe_ok hbody rfl).mp hp
  obtain ⟨-, -, -, -, b, hpb, hprints⟩ := rebuild_ok hattrs hbody hb hrebuild
  have hitems : ∀ i ∈ importItem place :: .node .fnItem [.node .attrs p.item.attrs, f.vis, p.item.sig, b] ::
      (p.withBefore plan before).details.toList, Prints i := by
    intro i hi
    rcases List.mem_cons.mp hi with rfl | hi
    · exact prints_importItem place
    · rcases List.mem_cons.mp hi with rfl | hi
      · exact hprints
      · obtain ⟨n, -, rfl⟩ := Option.map_eq_some_iff.mp (Option.mem_toList.mp hi)
        exact prints_detailsConst ..
  obtain ⟨text, htext⟩ := textOfItems_ok.mpr hitems
  refine ⟨text, ?_⟩
  have hgetD : (p.withBefore plan before).item.body.getD body = b := by
    change p.item.body.getD body = b
    rw [hpb]
    rfl
  rw [rebuiltFile, hgetD]
  exact congrArg (Except.mapError Failure.unprintable) htext

section MarkedFile

variable {path source : String} {m : Marker} {args item : List TokenTree} {plan : Plan} {attrs vis sig body block : Tree}
  {f : Function} {place : Nat → Pos} {joint : Bool}

/-- Going through the file succeeds exactly if its function can be probed and the file then printed. -/
theorem instrument_marked {out : Instrumented}
    (hsource : tokenize source = some (importTokens place joint ++ (m.attrTokens place args ++ item)))
    (hplan : Plan.parse m args = .ok plan) (hitem : itemOf item = .ok (.node .fnItem [attrs, vis, sig, body]))
    (hf : Function.ofParts attrs vis sig body = f) (hfree : ∀ a ∈ f.attrs, Marker.of? a = none) :
    instrument path source [] none = .ok out ↔
      ∃ q text, probe { f with attrs := m.attr place args :: f.attrs } f.name plan (some (m.attr place args)) = .ok q ∧
        textOfFile (rebuiltFile place vis body q) = .ok text ∧
        out = { source := header [q] ++ text, probed := [q], skipped := [] } := by
  obtain ⟨as, rfl, -⟩ := itemOf_fnItem hitem
  have hfile : fileOfText path source = .ok (.node .file [.noAttrs, .node .items [importItem place,
      .node .fnItem [.node .attrs (m.attr place args :: as), vis, sig, body]]]) := by
    rw [fileOfText, hsource, Option.map_some, parseFile_marked m place joint args hitem]
    rfl
  rw [instrument, hfile]
  simp only [Except.mapError, bind, Except.bind]
  rw [instrumentTree_marked place hplan hf hfree]
  cases probe { f with attrs := m.attr place args :: f.attrs } f.name plan (some (m.attr place args)) with
  | error e => simp [Except.map]
  | ok q =>
    simp only [Except.map]
    cases htext : textOfFile (rebuiltFile place vis body q) with
    | error e => simp [htext]
    | ok text => simp [htext, pure, Except.pure, eq_comm]

/-- What a file holds after its function was probed: what the probe without the marker gave, up to the text before. -/
theorem instrument_marked_probed {out : Instrumented}
    (hsource : tokenize source = some (importTokens place joint ++ (m.attrTokens place args ++ item)))
    (hplan : Plan.parse m args = .ok plan) (hitem : itemOf item = .ok (.node .fnItem [attrs, f.vis, sig, body]))
    (hf : Function.ofParts attrs f.vis sig body = f) (hattrs : ∀ a ∈ f.attrs, IsAttr a)
    (hfree : ∀ a ∈ f.attrs, Marker.of? a = none) (hblock : f.body = some block) (hb : IsBody block)
    (hout : instrument path source [] none = .ok out) :
    (∀ a ∈ f.attrs, isInnerAttr a = false) ∧ ∃ p q b text,
      probe f f.name plan none = .ok p ∧ p.withBefore plan p.sourceBefore = p ∧
        q = p.withBefore plan q.sourceBefore ∧ q.item.body = some b ∧
        textOfFile (rebuiltFile place q.item.vis b q) = .ok text ∧
        out = { source := header [q] ++ text, probed := [q], skipped := [] } := by
  obtain ⟨q, text, hq, htext, rfl⟩ := (instrument_marked hsource hplan hitem hf hfree).mp hout
  obtain ⟨before, p, -, hp, rfl⟩ := (probe_marked_ok m place args hblock).mp hq
  obtain ⟨plain, -, hrebuild⟩ := (probe_ok hblock rfl).mp hp
  obtain ⟨houter, rfl, hsame, hvis, b, hbody, -⟩ := rebuild_ok hattrs hblock hb hrebuild
  refine ⟨houter, p, p.withBefore plan before, b, text, hp, hsame, rfl, hbody, ?_, rfl⟩
  have hitem' : (p.withBefore plan before).item.body = some b := hbody
  have hfile : rebuiltFile place f.vis body (p.withBefore plan before) =
      rebuiltFile place p.item.vis b (p.withBefore plan before) := by
    rw [rebuiltFile, rebuiltFile, hitem', hvis]
    rfl
  rw [hfile] at htext
  exact htext

/-- A function that can be probed is probed in the file. -/
theorem instrument_marked_of_probe {p : Probed}
    (hsource : tokenize source = some (importTokens place joint ++ (m.attrTokens place args ++ item)))
    (hplan : Plan.parse m args = .ok plan) (hitem : itemOf item = .ok (.node .fnItem [attrs, f.vis, sig, body]))
    (hf : Function.ofParts attrs f.vis sig body = f) (hattrs : ∀ a ∈ f.attrs, IsAttr a)
    (hfree : ∀ a ∈ f.attrs, Marker.of? a = none) (hblock : f.body = some block) (hb : IsBody block)
    (hp : probe f f.name plan none = .ok p) :
    ∃ out, instrument path source [] none = .ok out := by
  obtain ⟨plain, hplain, -⟩ := (probe_ok hblock rfl).mp hp
  obtain ⟨before, hbefore⟩ := (render_marked m place args).mpr ⟨plain, hplain⟩
  have hq := (probe_marked_ok m place args hblock).mpr ⟨before, p, hbefore, hp, rfl⟩
  obtain ⟨text, htext⟩ := rebuiltFile_prints place before hattrs hblock hb hp
  exact ⟨_, (instrument_marked hsource hplan hitem hf hfree).mpr ⟨_, text, hq, htext, rfl⟩⟩

end MarkedFile

/-! ### The two ways agree -/

/-- A marker is expanded by a probe of the function that is read. -/
theorem expand_of_parse {m : Marker} {args item : List TokenTree} {plan : Plan} {f : Function}
    (hplan : Plan.parse m args = .ok plan) (hparse : Function.parse item = .ok f) :
    expand m args item = (probe f f.name plan none).map Probed.toTokens := by
  rw [expand, hplan, hparse]
  cases hp : probe f f.name plan none <;> simp [Except.mapError, bind, Except.bind, hp, Except.map, pure, Except.pure]

/-- A text that is the import of the markers and an item with a marker on it. The tokens of the item are those that the
    marker is expanded on, at their places in the text. -/
def IsMarkedFile (source : String) (m : Marker) (args item : List TokenTree) : Prop :=
  ∃ place joint, tokenize source = some (importTokens place joint ++ (m.attrTokens place args ++ item))

/-- A function item under a marker, expanded or in a file. Going through the file succeeds exactly if the marker can be
    expanded and the body starts without inner attributes. Then the expansion is a function and its constant, and the
    new file is the import, the same function and the same constant, except that `q` tells of another text before: the one
    that the function has in the file. -/
theorem instrument_agrees_with_expand (path : String) {source : String} {m : Marker} {args item : List TokenTree}
    {plan : Plan} {attrs vis sig body : Tree} (hsource : IsMarkedFile source m args item)
    (hplan : Plan.parse m args = .ok plan) (hitem : itemOf item = .ok (.node .fnItem [attrs, vis, sig, body]))
    (hfree : ∀ a ∈ attrs.attrList ++ (Function.splitBody body).2, Marker.of? a = none) :
    ((∃ out, instrument path source [] none = .ok out) ↔
      (∃ ts, expand m args item = .ok ts) ∧ (Function.splitBody body).2 = []) ∧
    ∀ out, instrument path source [] none = .ok out → ∃ (p q : Probed) (b : Tree) (place : Nat → Pos) (text : String),
      expand m args item = .ok p.toTokens ∧ p.withBefore plan p.sourceBefore = p ∧
        q = p.withBefore plan q.sourceBefore ∧ q.item.body = some b ∧
        textOfFile (rebuiltFile place q.item.vis b q) = .ok text ∧
        out = { source := header [q] ++ text, probed := [q], skipped := [] } := by
  obtain ⟨place, joint, htokens⟩ := hsource
  obtain ⟨o, inner, ss, c, rfl, hinner⟩ := itemOf_body hitem
  obtain ⟨as, rfl, -⟩ := itemOf_fnItem hitem
  let block : Tree := .node .block [.group .brace o [.noAttrs, .node .stmts ss] c]
  let f : Function := ⟨as ++ inner, vis, sig, some block⟩
  have hblock : f.body = some block := rfl
  have hb : IsBody block := ⟨.brace, o, ss, c, rfl⟩
  have hattrs : ∀ a ∈ f.attrs, IsAttr a :=
    List.forall_mem_append.mpr ⟨itemOf_attrs hitem, fun a ha => (hinner a ha).1⟩
  have hparts : Function.ofParts (.node .attrs as) vis sig
      (.node .block [.group .brace o [.node .attrs inner, .node .stmts ss] c]) = f := rfl
  -- Without inner attributes the function that the marker is expanded on is the one of the file.
  have hexpand : inner = [] → expand m args item = (probe f f.name plan none).map Probed.toTokens := by
    rintro rfl
    exact expand_of_parse hplan (parse_of_itemOf hitem)
  have hagree : ∀ out, instrument path source [] none = .ok out → inner = [] ∧ ∃ (p q : Probed) (b : Tree) (text : String),
      expand m args item = .ok p.toTokens ∧ p.withBefore plan p.sourceBefore = p ∧
        q = p.withBefore plan q.sourceBefore ∧ q.item.body = some b ∧
        textOfFile (rebuiltFile place q.item.vis b q) = .ok text ∧
        out = { source := header [q] ++ text, probed := [q], skipped := [] } := by
    intro out hout
    obtain ⟨houter, p, q, b, text, hp, hfile⟩ :=
      instrument_marked_probed htokens hplan hitem hparts hattrs hfree hblock hb hout
    have hnil : inner = [] := List.eq_nil_iff_forall_not_mem.mpr fun a ha =>
      Bool.false_ne_true ((houter a (List.mem_append_right as ha)).symm.trans (hinner a ha).2)
    refine ⟨hnil, p, q, b, text, ?_, hfile⟩
    rw [hexpand hnil, hp]
    rfl
  refine ⟨⟨?_, ?_⟩, ?_⟩
  · rintro ⟨out, hout⟩
    obtain ⟨hnil, p, -, -, -, hp, -⟩ := hagree out hout
    exact ⟨⟨p.toTokens, hp⟩, hnil⟩
  · rintro ⟨⟨ts, hts⟩, hnil⟩
    rw [hexpand hnil] at hts
    cases hp : probe f f.name plan none with
    | error e =>
      rw [hp] at hts
      cases hts
    | ok p => exact instrument_marked_of_probe htokens hplan hitem hparts hattrs hfree hblock hb hp
  · intro out hout
    obtain ⟨-, p, q, b, text, hall⟩ := hagree out hout
    exact ⟨p, q, b, place, text, hall⟩

/-! ### Two files -/

/-- Where the tokens of the import in the first line and of the marker in the second stand. -/
def markedPlace (n : Nat) : Pos :=
  [⟨1, 0⟩, ⟨1, 4⟩, ⟨1, 19⟩, ⟨1, 20⟩, ⟨1, 21⟩, ⟨1, 22⟩, ⟨1, 29⟩, ⟨1, 31⟩, ⟨1, 41⟩, ⟨1, 42⟩, ⟨2, 0⟩, ⟨2, 1⟩, ⟨2, 2⟩,
    ⟨2, 12⟩, ⟨2, 24⟩, ⟨2, 25⟩].getD n Pos.none

/-- The arguments `wrapper = w` of the marker. -/
def wrapperArgs : List TokenTree := [.ident "wrapper" ⟨2, 13⟩, .punct '=' false ⟨2, 21⟩, .ident "w" ⟨2, 23⟩]

/-- The plan of `wrapper = w`. -/
def wrapperPlan : Plan :=
  .wrapCalls { wrapper := .node .path [.absent, .node .list [.node .segment [.leaf (.word "w" ⟨2, 23⟩), .absent]]] }

theorem parse_wrapperArgs : Plan.parse .wrapCalls wrapperArgs = .ok wrapperPlan := rfl

/-- `fn f() -> u8 { g(1) }`, in the third line. -/
def outerItem : List TokenTree :=
  [.ident "fn" ⟨3, 0⟩, .ident "f" ⟨3, 3⟩, .group .paren ⟨3, 4⟩ [] ⟨3, 5⟩, .punct '-' true ⟨3, 7⟩,
    .punct '>' false ⟨3, 8⟩, .ident "u8" ⟨3, 10⟩, .group .brace ⟨3, 13⟩
      [.ident "g" ⟨3, 15⟩, .group .paren ⟨3, 16⟩ [.literal "1" ⟨3, 17⟩] ⟨3, 18⟩] ⟨3, 20⟩]

/-- The file in which `outerItem` is marked. -/
def outerSource : String :=
  "use shallow_runtime::\x7bprofile, wrap_calls\x7d;\n#[wrap_calls(wrapper = w)]\nfn f() -> u8 \x7b g(1) \x7d"

/-- A function without inner attributes is probed in both ways, and its call is wrapped. -/
theorem instrument_agrees_with_expand_outer : IsMarkedFile outerSource .wrapCalls wrapperArgs outerItem ∧
    ∃ out p, instrument "src/lib.rs" outerSource [] none = .ok out ∧
      expand .wrapCalls wrapperArgs outerItem = .ok (Probed.toTokens p) ∧
      TokenTree.mentions.mentionsAny "finish" p.toTokens = true ∧ out.probed.map (·.sourceAfter) = [p.sourceAfter] := by
  have hsource : IsMarkedFile outerSource .wrapCalls wrapperArgs outerItem := ⟨markedPlace, false, rfl⟩
  obtain ⟨attrs, vis, sig, body, hitem, hattrs, hinner⟩ : ∃ attrs vis sig body,
      itemOf outerItem = .ok (.node .fnItem [attrs, vis, sig, body]) ∧ attrs.attrList = [] ∧
        (Function.splitBody body).2 = [] := ⟨_, _, _, _, rfl, rfl, rfl⟩
  obtain ⟨ts, hexpand, hwrapped⟩ := @ok_of_any _ _ (expand .wrapCalls wrapperArgs outerItem)
    (TokenTree.mentions.mentionsAny "finish") (by decide +kernel)
  obtain ⟨hiff, hagree⟩ := instrument_agrees_with_expand "src/lib.rs" hsource parse_wrapperArgs hitem
    (by simp [hattrs, hinner])
  obtain ⟨out, hout⟩ := hiff.mpr ⟨⟨ts, hexpand⟩, hinner⟩
  obtain ⟨p, q, _, _, _, hp, -, hq, -, -, hprobed⟩ := hagree out hout
  obtain rfl : ts = p.toTokens := Except.ok.inj (hexpand.symm.trans hp)
  exact ⟨hsource, out, p, hout, hp, hwrapped, by rw [hprobed, hq]; rfl⟩

/-- `fn f() { #![inline] }`, in the third line. -/
def innerItem : List TokenTree :=
  [.ident "fn" ⟨3, 0⟩, .ident "f" ⟨3, 3⟩, .group .paren ⟨3, 4⟩ [] ⟨3, 5⟩, .group .brace ⟨3, 7⟩
    [.punct '#' true ⟨3, 9⟩, .punct '!' false ⟨3, 10⟩, .group .bracket ⟨3, 11⟩ [.ident "inline" ⟨3, 12⟩] ⟨3, 18⟩]
    ⟨3, 20⟩]

/-- The file in which `innerItem` is marked. -/
def innerSource : String :=
  "use shallow_runtime::\x7bprofile, wrap_calls\x7d;\n#[wrap_calls(wrapper = w)]\nfn f() \x7b #![inline] \x7d"

/-- The marker of a function with an inner attribute can be expanded, but the file that it stands in fails. -/
theorem innerSource_refused : IsMarkedFile innerSource .wrapCalls wrapperArgs innerItem ∧
    (∃ attrs vis sig body, itemOf innerItem = .ok (.node .fnItem [attrs, vis, sig, body]) ∧
      ∀ a ∈ attrs.attrList ++ (Function.splitBody body).2, Marker.of? a = none) ∧
    (∃ ts, expand .wrapCalls wrapperArgs innerItem = .ok ts) ∧
    ¬∃ out, instrument "src/lib.rs" innerSource [] none = .ok out := by
  have htokens : tokenize innerSource =
      some (importTokens markedPlace false ++ (Marker.wrapCalls.attrTokens markedPlace wrapperArgs ++ innerItem)) := rfl
  obtain ⟨vis, sig, stmts, attr, o, c, hitem, hinner, hfree⟩ : ∃ vis sig stmts attr o c,
      itemOf innerItem = .ok (.node .fnItem [.noAttrs, vis, sig,
        .node .block [.group .brace o [.node .attrs [attr], .node .stmts stmts] c]]) ∧
      isInnerAttr attr = true ∧ Marker.of? attr = none := ⟨_, _, _, _, _, _, rfl, rfl, rfl⟩
  let block : Tree := .node .block [.group .brace o [.noAttrs, .node .stmts stmts] c]
  refine ⟨⟨markedPlace, false, htokens⟩, ⟨_, _, _, _, hitem, ?_⟩, ⟨_, rfl⟩, ?_⟩
  · exact List.forall_mem_singleton.mpr hfree
  · rintro ⟨out, hout⟩
    have hread : IsAttr attr := by
      obtain ⟨_, _, _, _, heq, hattrs⟩ := itemOf_body hitem
      cases heq
      exact (hattrs attr (List.mem_singleton_self attr)).1
    obtain ⟨houter, -⟩ := instrument_marked_probed (f := ⟨[attr], vis, sig, some block⟩) htokens parse_wrapperArgs
      hitem rfl (List.forall_mem_singleton.mpr hread) (List.forall_mem_singleton.mpr hfree) rfl
      ⟨.brace, o, stmts, c, rfl⟩ hout
    exact Bool.false_ne_true ((houter attr (List.mem_singleton_self attr)).symm.trans hinner)

end CallProbe.Probe
