import CallProbe.Proofs.Marked.Reading

/-! # The items of a file as they are read

A file holds functions as free functions, in modules, in implementations and in traits. `ItemForm` says what these are
made of in a file that was read: everything but a function that a trait only declares has a body in braces. What is known
of attributes, which stand in front of functions and at the start of their bodies, is a parameter; `AttrForm` says what
they are made of. -/

namespace CallProbe.Source.Parse

variable {Q : Tree → Prop} {reach : Reach}

/-- A body in braces, with inner attributes and statements. -/
def BodyForm (Q : Tree → Prop) (t : Tree) : Prop :=
  ∃ o inner ss c, t = .node .block [.group .brace o [.node .attrs inner, .node .stmts ss] c] ∧ ∀ a ∈ inner, Q a

/-- Attributes that stand in front of something. -/
def AttrsForm (Q : Tree → Prop) (t : Tree) : Prop := ∃ as, t = .node .attrs as ∧ ∀ a ∈ as, Q a

/-- A member of an implementation. -/
inductive MethodForm (Q : Tree → Prop) : Tree → Prop where
  | method {attrs vis dflt sig body : Tree} (hattrs : AttrsForm Q attrs) (hbody : BodyForm Q body) :
      MethodForm Q (.node .methodItem [attrs, vis, dflt, sig, body])
  | other {k : Kind} {cs : List Tree} (h : k ≠ .methodItem) : MethodForm Q (.node k cs)

/-- A member of a trait. -/
inductive TraitFnForm (Q : Tree → Prop) : Tree → Prop where
  | provided {attrs sig body : Tree} (hattrs : AttrsForm Q attrs) (hbody : BodyForm Q body) :
      TraitFnForm Q (.node .traitFn [attrs, sig, body])
  | required {attrs sig : Tree} {semi : Leaf} (hattrs : AttrsForm Q attrs) :
      TraitFnForm Q (.node .traitFn [attrs, sig, .leaf semi])
  | other {k : Kind} {cs : List Tree} (h : k ≠ .traitFn) : TraitFnForm Q (.node k cs)

/-- An item. -/
inductive ItemForm (Q : Tree → Prop) : Tree → Prop where
  | free {attrs vis sig body : Tree} (hattrs : AttrsForm Q attrs) (hbody : BodyForm Q body) :
      ItemForm Q (.node .fnItem [attrs, vis, sig, body])
  | module {attrs vis u m n inner : Tree} {d : Delimiter} {o c : Pos} {items : List Tree}
      (hitems : ∀ t ∈ items, ItemForm Q t) :
      ItemForm Q (.node .modItem [attrs, vis, u, m, n, .group d o [inner, .node .items items] c])
  | elsewhere {attrs vis u m n : Tree} {semi : Leaf} : ItemForm Q (.node .modItem [attrs, vis, u, m, n, .leaf semi])
  | implementation {attrs dflt u i gs of self w inner : Tree} {d : Delimiter} {o c : Pos} {members : List Tree}
      (hmembers : ∀ m ∈ members, MethodForm Q m) :
      ItemForm Q (.node .implItem [attrs, dflt, u, i, gs, of, self, w, .group d o [inner, .node .items members] c])
  | trait {attrs vis u a t n gs colon bs w inner : Tree} {d : Delimiter} {o c : Pos} {members : List Tree}
      (hmembers : ∀ m ∈ members, TraitFnForm Q m) :
      ItemForm Q (.node .traitItem [attrs, vis, u, a, t, n, gs, colon, bs, w, .group d o [inner, .node .items members] c])
  | other {k : Kind} {cs : List Tree} (h : holdsFns k = false) : ItemForm Q (.node k cs)

/-! ### Attributes -/

/-- A part of a path of names: one of them, or what stands between them. -/
inductive PartForm : Tree → Prop where
  | leaf (l : Leaf) : PartForm (.leaf l)
  | name (l : Leaf) : PartForm (.node .segment [.leaf l, .absent])

/-- A path of names only. -/
inductive NamesForm : Tree → Prop where
  | path {lead : Tree} {parts : List Tree} (hlead : lead = .absent ∨ ∃ l, lead = .leaf l) (hparts : ∀ t ∈ parts, PartForm t) :
      NamesForm (.node .path [lead, .list parts])

/-- The inside of an attribute. -/
inductive MetaForm : Tree → Prop where
  | path {p : Tree} (hpath : NamesForm p) : MetaForm (.node .metaPath [p])
  | tokens {p : Tree} (hpath : NamesForm p) (d : Delimiter) (o : Pos) (ts : List TokenTree) (c : Pos) :
      MetaForm (.node .metaList [p, .group d o [.tokens ts] c])
  | value (p : Tree) (cs : List Tree) : MetaForm (.node .metaNameValue (p :: cs))

/-- An attribute. -/
inductive AttrForm : Tree → Prop where
  | attr (pound : Leaf) {bang : Tree} (hbang : bang = .absent ∨ ∃ l, bang = .leaf l) (o : Pos) {inside : Tree}
      (hinside : MetaForm inside) (c : Pos) : AttrForm (.node .attr [.leaf pound, bang, .group .bracket o [inside] c])

theorem symbol_leaf (s : String) : Gives (fun t => ∃ l, t = .leaf l) (symbol s) := fun ts t rest h => by
  obtain ⟨p, rfl⟩ := symbol_gives s ts t rest h
  exact ⟨_, rfl⟩

theorem anyWord_leaf : Gives (fun t => ∃ l, t = .leaf l) anyWord := by
  rintro ts t rest h
  obtain ⟨ts', mid, hget, h⟩ := bind_ok h
  split at h
  · obtain ⟨⟨⟩, mid', hset, h⟩ := bind_ok h
    obtain ⟨rfl, -⟩ := pure_ok h
    exact ⟨_, rfl⟩
  · cases h

theorem nameSegment_form : Gives PartForm (do return .node .segment [← anyWord, .absent]) := by
  refine .bind_of anyWord_leaf fun n hn => .pure ?_
  obtain ⟨l, rfl⟩ := hn
  exact .name l

theorem plainPath_form : Gives NamesForm plainPath := by
  refine .bind_of (Q := fun t => t = .absent ∨ ∃ l, t = .leaf l) ?lead fun lead hlead =>
    .bind_of (.bind fun ts => .ite nameSegment_form .refuse) fun first hfirst =>
    .bind_of (.repeatWhile (P := fun part => ∀ t ∈ part, PartForm t) ?more) fun rest hrest => .pure (.path hlead ?_)
  case lead => exact .bind fun ts => .ite (fun ts t rest h => .inr (symbol_leaf "::" ts t rest h)) (.pure (.inl rfl))
  case more =>
    refine .bind_of (symbol_leaf "::") fun colons hcolons =>
      .bind_of (.bind fun ts => .ite nameSegment_form .refuse) fun s hs => .pure ?_
    obtain ⟨l, rfl⟩ := hcolons
    exact List.forall_mem_cons.mpr ⟨.leaf l, List.forall_mem_singleton.mpr hs⟩
  refine List.forall_mem_cons.mpr ⟨hfirst, fun s hs => ?_⟩
  obtain ⟨part, hpart, hs⟩ := List.mem_flatten.mp hs
  exact hrest part hpart s hs

theorem attrMeta_form : Gives MetaForm (attrMeta reach) := by
  refine .bind fun ts => .ite (.bind_of (Q := NamesForm) ?single ?rest) (.bind_of plainPath_form ?rest)
  case single =>
    refine .bind_of anyWord_leaf fun n hn => .pure (.path (.inl rfl) (List.forall_mem_singleton.mpr ?_))
    obtain ⟨l, rfl⟩ := hn
    exact .name l
  rintro path hpath
  refine .bind fun ts' => ?_
  split
  · exact .bind fun r => .pure (.tokens hpath _ _ _ _)
  · refine .ite (.bind fun eq => .bind fun ts'' => .bind fun value => ?_) (.pure (.path hpath))
    split
    · exact .pure (.value _ _)
    · exact .before fun _ => .bind fun e => .pure (.value _ _)

theorem attrGroup_form : Gives (fun t => ∃ o m c, t = .group .bracket o [m] c ∧ MetaForm m)
    (group .bracket do return [← attrMeta reach]) := by
  have hcontent : Gives (fun cs => ∃ m, cs = [m] ∧ MetaForm m) (do return [← attrMeta reach]) :=
    .bind_of attrMeta_form fun m hm => .pure ⟨m, rfl, hm⟩
  rintro ts t rest h
  obtain ⟨o, content, c, rfl, m, rfl, hm⟩ := Gives.group hcontent ts t rest h
  exact ⟨o, m, c, rfl, hm⟩

theorem outerAttr_form : Gives AttrForm (outerAttr reach) := by
  refine .bind_of (symbol_leaf "#") fun pound hpound => .bind_of attrGroup_form fun inside hinside => .pure ?_
  obtain ⟨l, rfl⟩ := hpound
  obtain ⟨o, m, c, rfl, hm⟩ := hinside
  exact .attr l (.inl rfl) o hm c

theorem innerAttr_form : Gives AttrForm (innerAttr reach) := by
  refine .bind_of (symbol_leaf "#") fun pound hpound => .bind_of (symbol_leaf "!") fun bang hbang =>
    .bind_of attrGroup_form fun inside hinside => .pure ?_
  obtain ⟨l, rfl⟩ := hpound
  obtain ⟨o, m, c, rfl, hm⟩ := hinside
  exact .attr l (.inr hbang) o hm c

/-! ### Members -/

theorem macroMember_gives {P : Tree → Prop} (attrs : Tree) (h : ∀ cs, P (.node .macroMember cs)) :
    Gives P (macroMember attrs) := by
  refine .bind fun p => .bind fun bang => .bind fun args => ?_
  exact .bind fun semi => .pure (h _)

section Members

variable (houter : Gives Q (outerAttr reach)) (hbody : Gives (BodyForm Q) (reach (.block true)))

include houter

include hbody

theorem implMember_gives : Gives (MethodForm Q) (implMember reach) := by
  have hpassed : ∀ begin, Gives (MethodForm Q) (passedThrough begin) :=
    fun begin => .bind fun _ => .pure (.other (by decide))
  refine .bind fun begin => .bind_of (outerAttrs_gives houter) fun attrs hattrs => .bind fun vis => .bind fun ts =>
    .bind fun dflt => .bind fun ts' => .ite ?method (.ite ?constant (.ite ?type (.ite ?call .refuse)))
  case method =>
    refine .bind fun sig => .bind fun ts => .ite (.bind fun _ => hpassed begin) ?_
    exact .bind_of hbody fun body hbody => .pure (.method hattrs hbody)
  case constant =>
    refine .bind fun c => .bind fun parts => ?_
    split
    · exact .ite (.pure (.other (by decide))) (hpassed begin)
    · exact hpassed begin
  case type =>
    refine .bind fun t => .bind fun n => .bind fun gs => .bind fun bounded => .bind fun bs => .bind fun eq =>
      .bind fun ty => .bind fun w => .bind fun semi => ?_
    exact .ite (hpassed begin) (.pure (.other (by decide)))
  case call => exact macroMember_gives attrs fun cs => .other (by decide)

theorem traitMember_gives : Gives (TraitFnForm Q) (traitMember reach) := by
  have hpassed : ∀ begin, Gives (TraitFnForm Q) (passedThrough begin) :=
    fun begin => .bind fun _ => .pure (.other (by decide))
  refine .bind fun begin => .bind_of (outerAttrs_gives houter) fun attrs hattrs => .bind fun vis => .bind fun dflt =>
    .bind fun ts => ?_
  have hfinish : ∀ m, TraitFnForm Q m → Gives (TraitFnForm Q)
      (if (!vis.isPresent && !dflt.isPresent) = true then pure m else passedThrough begin) :=
    fun m hm => .ite (.pure hm) (hpassed begin)
  have hcall : Gives (TraitFnForm Q) (macroMember attrs) := macroMember_gives attrs fun cs => .other (by decide)
  refine .ite (.bind_of ?method hfinish) (.ite (.bind_of ?constant hfinish) (.ite (.bind_of ?type hfinish)
    (.ite (.bind_of hcall hfinish) (.bind_of .refuse hfinish))))
  case method =>
    refine .bind fun sig => .bind fun ts => .ite ?_ ?_
    · exact .bind_of hbody fun body hbody => .pure (.provided hattrs hbody)
    · refine .bind_of (symbol_gives ";") fun semi hsemi => ?_
      obtain ⟨p, rfl⟩ := hsemi
      exact .pure (.required hattrs)
  case constant =>
    refine .bind fun c => .bind fun parts => ?_
    split
    · exact .pure (.other (by decide))
    · exact hpassed begin
  case type =>
    refine .bind fun t => .bind fun n => .bind fun gs => .bind fun bounds => .bind fun given => .bind fun w =>
      .bind fun semi => ?_
    exact .pure (.other (by decide))

end Members

/-! ### Items -/

theorem itemsBody_gives {P : Tree → Prop} {p : Parser Tree} (h : Gives P p) : Gives (fun t => ∃ o inner items c,
    t = .group .brace o [inner, .node .items items] c ∧ ∀ i ∈ items, P i) (itemsBody reach p) := by
  have hcontent : Gives (fun cs => ∃ inner items, cs = [inner, .node .items items] ∧ ∀ i ∈ items, P i) (do
      let inner ← innerAttrs reach
      return [inner, .node .items (← repeatWhile (!atEnd ·) p)]) :=
    .bind fun inner => .bind_of (.repeatWhile h) fun items hitems => .pure ⟨inner, items, rfl, hitems⟩
  rintro ts t rest ht
  obtain ⟨o, content, c, rfl, inner, items, rfl, hitems⟩ := Gives.group hcontent ts t rest ht
  exact ⟨o, inner, items, c, rfl, hitems⟩

section Items

variable (houter : Gives Q (outerAttr reach)) (hbody : Gives (BodyForm Q) (reach (.block true)))
  (hitem : Gives (ItemForm Q) (reach .item))

theorem modItem_gives (hitem : Gives (ItemForm Q) (reach .item)) (vis : Tree) : Gives (ItemForm Q) (modItem reach vis) := by
  refine .bind fun u => .bind fun m => .bind fun ts => .branch fun n => .bind fun ts' => .ite ?_ ?_
  · refine .bind_of (symbol_gives ";") fun semi hsemi => ?_
    obtain ⟨p, rfl⟩ := hsemi
    exact .pure .elsewhere
  · refine .bind_of (itemsBody_gives hitem) fun body hbody => ?_
    obtain ⟨o, inner, items, c, rfl, hitems⟩ := hbody
    exact .pure (.module hitems)

include houter hbody

theorem traitItem_gives (vis : Tree) : Gives (ItemForm Q) (traitItem reach vis) := by
  refine .bind fun u => .bind fun a => .bind fun t => .bind fun n => .bind fun gs => .bind fun ts => .ite ?_ ?_
  · exact .bind fun eq => .bind fun bs => .bind fun w => .bind fun semi => .pure (.other rfl)
  · refine .bind fun colon => .branch fun bs => .bind fun w =>
      .bind_of (itemsBody_gives (traitMember_gives houter hbody)) fun body hbody => ?_
    obtain ⟨o, inner, members, c, rfl, hmembers⟩ := hbody
    exact .pure (.trait hmembers)

theorem implItem_gives (begin : List TokenTree) (vis : Tree) : Gives (ItemForm Q) (implItem reach begin vis) := by
  have hpassed : Gives (ItemForm Q) (passedThrough begin) := passedThrough_gives (fun _ _ => .other) begin
  refine .bind fun def_ => .bind fun u => .bind fun i => .bind fun start => .branch fun gs => .bind fun ts =>
    .bind fun _ => .bind fun _ => .bind fun bang => .bind fun first => .bind fun f => .branch fun self =>
    .before fun _ => .bind fun w => .bind_of (itemsBody_gives (implMember_gives houter hbody)) fun body hbody => ?_
  obtain ⟨o, inner, members, c, rfl, hmembers⟩ := hbody
  refine .ite hpassed (.ite (.pure (.implementation hmembers)) ?_)
  split
  · exact .pure (.implementation hmembers)
  · exact hpassed

include hitem

theorem itemRest_form (begin : List TokenTree) (vis : Tree) : Gives (ItemForm Q) (itemRest reach begin vis) := by
  rintro ts t rest h
  have hother : ∀ k cs, holdsFns k = false → ItemForm Q (.node k cs) := fun _ _ => .other
  cases hsig : signatureAhead false ts with
  | false =>
    exact itemRest_gives hother (modItem_gives hitem vis) (traitItem_gives houter hbody vis)
      (implItem_gives houter hbody begin vis) hsig h
  | true =>
    rw [itemRest, bind_get] at h
    simp only [hsig, ↓reduceIte] at h
    refine Gives.holds h (.bind fun sig => .bind fun ts' => .ite (.bind fun _ => passedThrough_gives hother begin) ?_)
    exact .bind_of hbody fun body hbody => .pure (.free ⟨[], rfl, List.forall_mem_nil _⟩ hbody)

omit houter hbody hitem in
theorem ItemForm.addAttrs {t : Tree} {as : List Tree} (h : ItemForm Q t) (has : ∀ a ∈ as, Q a) :
    ItemForm Q (t.addAttrs (.node .attrs as)) := by
  unfold Tree.addAttrs
  split
  · rename_i k own rest
    cases h with
    | free hattrs hbody =>
      obtain ⟨own', heq, hown⟩ := hattrs
      cases heq
      exact .free ⟨as ++ own, rfl, List.forall_mem_append.mpr ⟨has, hown⟩⟩ hbody
    | module hitems => exact .module hitems
    | elsewhere => exact .elsewhere
    | implementation hmembers => exact .implementation hmembers
    | trait hmembers => exact .trait hmembers
    | other hk => exact .other hk
  · exact h

theorem item_gives : Gives (ItemForm Q) (item reach) := by
  refine .bind fun begin => .bind_of (outerAttrs_gives houter) fun attrs hattrs => .bind fun vis =>
    .bind_of (itemRest_form houter hbody hitem begin vis) fun i hi => .pure ?_
  obtain ⟨as, rfl, has⟩ := hattrs
  split
  · exact hi
  · exact hi.addAttrs has

end Items

/-! ### Files -/

/-- What is read of attributes, however deep the rules are nested, holds of the attributes of all functions. -/
theorem run_item_gives (houter : ∀ reach, Gives Q (outerAttr reach)) (hinner : ∀ reach, Gives Q (innerAttr reach)) (n : Nat) :
    Gives (ItemForm Q) (Grammar.run n .item) := by
  induction n with
  | zero => exact .refuse
  | succ n ih =>
    have hbody : Gives (BodyForm Q) (Grammar.run n (.block true)) := by
      cases n with
      | zero => exact .refuse
      | succ n => exact block_gives (hinner _)
    exact item_gives (houter _) hbody ih

theorem parseFile_items (houter : ∀ reach, Gives Q (outerAttr reach)) (hinner : ∀ reach, Gives Q (innerAttr reach))
    {ts : List TokenTree} {file : Tree} (h : Grammar.parseFile ts = .ok file) :
    ∃ attrs items, file = .node .file [attrs, .node .items items] ∧ ∀ t ∈ items, ItemForm Q t := by
  have hbody : Gives (BodyForm Q) (Grammar.reach (.block true)) := by
    rintro ts t rest h
    exact block_gives (hinner _) ts t rest h
  have hitem : Gives (ItemForm Q) (Grammar.reach .item) :=
    fun ts t rest h => run_item_gives houter hinner (Grammar.depth ts) ts t rest h
  have hitems : Gives (∀ t ∈ ·, ItemForm Q t) (repeatWhile (!atEnd ·) (item Grammar.reach)) :=
    .repeatWhile (item_gives (houter _) hbody hitem)
  unfold Grammar.parseFile Grammar.parseWith at h
  split at h
  · rename_i t hread
    cases h
    obtain ⟨attrs, mid, -, hread⟩ := bind_ok hread
    obtain ⟨items, mid', hrepeat, hdone⟩ := bind_ok hread
    obtain ⟨rfl, -⟩ := pure_ok hdone
    exact ⟨attrs, items, rfl, hitems mid items mid' hrepeat⟩
  · cases h
  · cases h

end CallProbe.Source.Parse

namespace CallProbe.Probe

open Source

theorem fileOfText_ok {path source : String} {file : Tree} (h : fileOfText path source = .ok file) :
    ∃ ts, tokenize source = some ts ∧ Grammar.parseFile ts = .ok file := by
  unfold fileOfText at h
  cases htokens : tokenize source with
  | none =>
    rw [htokens] at h
    cases h
  | some ts =>
    refine ⟨ts, rfl, ?_⟩
    rw [htokens, Option.map_some] at h
    cases hparse : Grammar.parseFile ts with
    | error e =>
      rw [hparse] at h
      cases h
    | ok t =>
      rw [hparse] at h
      cases h
      rfl

end CallProbe.Probe
