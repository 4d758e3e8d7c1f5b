import CallProbe.Proofs.Pass.Edited
import CallProbe.Proofs.Probe.Surveyed
import CallProbe.Proofs.Shape.Places

/-! # Markers after a pass

Each probe that a marker asks for takes one marker away, and nothing that a probe does adds one: what it puts in front of a
function is no marker, and parentheses do not change what an attribute is. So the functions of a file have no markers left
after a pass, by the imports that decided about them. -/

namespace CallProbe.Source

variable {f : Tree → Tree}

/-- What is read off brackets only. -/
theorem Regular.read_group (h : Regular f) {α : Type} {read : Tree → α} (none : α)
    (hother : ∀ t, (∀ d o ts c, t ≠ .group d o ts c) → read t = none)
    (hread : ∀ d o c o' c' ts, read (.group d o' (ts.map f) c') = read (.group d o ts c)) (t : Tree) : read (f t) = read t := by
  by_cases hform : ∃ d o ts c, t = .group d o ts c
  · obtain ⟨d, o, ts, c, rfl⟩ := hform
    obtain ⟨o', c', heq⟩ := h.group d o c ts
    rw [heq, hread]
  · rw [hother t fun d o ts c heq => hform ⟨d, o, ts, c, heq⟩]
    refine hother _ fun d o ts c heq => ?_
    obtain ⟨o', content, c', rfl, -⟩ := h.group_inv heq
    exact hform ⟨d, o', content, c', rfl⟩

end CallProbe.Source

namespace CallProbe.Probe

open Source Call Parse

/-! ### What an attribute is -/

variable {f : Tree → Tree} {imports : Imports}

/-- The path of what an attribute has inside. -/
def metaPath : Tree → Tree
  | .node .metaPath [p] | .node .metaList [p, _] | .node .metaNameValue [p, _, _] => p
  | _ => .absent

def metaNames (t : Tree) : List String := Target.pathNames (metaPath t)

def insideNames : Tree → List String
  | .group _ _ [m] _ => metaNames m
  | _ => []

def attrNames : Tree → List String
  | .node .attr [_, _, inside] => insideNames inside
  | _ => []

theorem pathNames_attrPath (a : Tree) : Target.pathNames (attrPath a) = attrNames a := by
  have hpath : Target.pathNames (attrPath a) = metaNames (attrMeta a) := rfl
  rw [hpath]
  unfold attrMeta
  split
  · rfl
  · rename_i hne
    unfold attrNames
    split
    · rename_i inside
      unfold insideNames
      split
      · exact absurd rfl (hne _ _ _ _ _ _)
      · rfl
    · rfl

theorem metaNames_regular (h : Regular f) (t : Tree) : metaNames (f t) = metaNames t := by
  refine h.read_kinds [Kind.metaPath, .metaList, .metaNameValue].contains [] (fun k hk => ?_) (fun t ht => ?_)
    (fun k cs hk => ?_) t
  · cases k <;> first | rfl | cases hk
  · unfold metaNames metaPath
    split <;> first | rfl | cases ht
  · obtain rfl | rfl | rfl : k = .metaPath ∨ k = .metaList ∨ k = .metaNameValue := by simpa using hk
    · match cs with
      | [p] => exact pathNames_regular h p
      | [] => rfl
      | _ :: _ :: _ => rfl
    · match cs with
      | [p, _] => exact pathNames_regular h p
      | [] | [_] => rfl
      | _ :: _ :: _ :: _ => rfl
    · match cs with
      | [p, _, _] => exact pathNames_regular h p
      | [] | [_] | [_, _] => rfl
      | _ :: _ :: _ :: _ :: _ => rfl

theorem insideNames_regular (h : Regular f) (t : Tree) : insideNames (f t) = insideNames t := by
  refine h.read_group [] (fun t ht => ?_) (fun d o c o' c' ts => ?_) t
  · unfold insideNames
    split
    · exact absurd rfl (ht _ _ _ _)
    · rfl
  · match ts with
    | [m] => exact metaNames_regular h m
    | [] => rfl
    | _ :: _ :: _ => rfl

theorem attrNames_regular (h : Regular f) (t : Tree) : attrNames (f t) = attrNames t := by
  refine h.read_kind .attr [] rfl (fun t ht => ?_) (fun cs => ?_) t
  · unfold attrNames
    split
    · exact absurd rfl ht
    · rfl
  · match cs with
    | [_, _, inside] => exact insideNames_regular h inside
    | [] | [_] | [_, _] => rfl
    | _ :: _ :: _ :: _ :: _ => rfl

/-- Whether an attribute is a marker, and of which kind, is decided by the names in its path. -/
theorem marker?_congr {a b : Tree} (h : attrNames a = attrNames b) : imports.marker? a = imports.marker? b := by
  have hpath : Target.pathNames (attrPath a) = Target.pathNames (attrPath b) := by
    rw [pathNames_attrPath, pathNames_attrPath, h]
  unfold Imports.marker? Marker.of?
  rw [hpath]

theorem marker?_regular (h : Regular f) (a : Tree) : imports.marker? (f a) = imports.marker? a :=
  marker?_congr (attrNames_regular h a)

theorem marker?_of_same {a b : Tree} (h : a.same b = true) : imports.marker? a = imports.marker? b := by
  rw [← marker?_regular regular_unplaced a, Tree.unplaced_of_same h, marker?_regular regular_unplaced]

/-! ### Markers of a function -/

/-- Attributes without a marker. -/
def Unmarked (imports : Imports) (attrs : List Tree) : Prop := ∀ a ∈ attrs, imports.marker? a = none

def markerCount (imports : Imports) (attrs : List Tree) : Nat := attrs.countP fun a => (imports.marker? a).isSome

theorem unmarked_iff {attrs : List Tree} : Unmarked imports attrs ↔ markerCount imports attrs = 0 := by
  simp [Unmarked, markerCount, List.countP_eq_zero]

theorem markerCount_map (h : Regular f) (attrs : List Tree) :
    markerCount imports (attrs.map f) = markerCount imports attrs := by
  rw [markerCount, List.countP_map]
  exact List.countP_congr fun a _ => by simp [marker?_regular h]

variable {fn g : Function} {name : String} {asks : List Ask} {ps : List Probed} {plan : Plan}

/-- The first attribute that is the marker is taken away. -/
theorem markerCount_strip {a : Tree} (hmarker : (imports.marker? a).isSome = true) (h : fn.strip? a = some g) :
    markerCount imports g.attrs + 1 = markerCount imports fn.attrs := by
  obtain ⟨c, before, after, hsame, hattrs, rfl⟩ := strip?_inv h
  have hcount : (imports.marker? c).isSome = true := by rw [marker?_of_same hsame, hmarker]
  rw [hattrs, markerCount, markerCount, List.countP_append, List.countP_append, List.countP_cons, if_pos hcount, Nat.add_assoc]

theorem markerCount_changes {body : Tree} (h : plan.Changes name fn body g) :
    markerCount imports g.attrs = markerCount imports fn.attrs := by
  rcases h.attrs with hattrs | hattrs
  · rw [hattrs]
  · have hallow : imports.marker? allowAttr = none := rfl
    rw [hattrs, markerCount, List.countP_append, List.countP_singleton]
    simp [hallow, markerCount]

theorem Succeeds.markerCount {strip : Option Tree} {p : Probed} (h : Succeeds plan strip name fn p)
    (hmarker : ∀ a, strip = some a → (imports.marker? a).isSome = true) :
    markerCount imports p.item.attrs + strip.toList.length = markerCount imports fn.attrs := by
  obtain ⟨body, f', g, -, hstrip, hchanges, -, hitem⟩ := h.steps
  have hgrouped : Probe.markerCount imports p.item.attrs = Probe.markerCount imports f'.attrs := by
    rw [hitem, Function.grouped, markerCount_map (f := Tree.grouped) (regular_tree .least), markerCount_changes hchanges]
  rw [hgrouped]
  cases strip with
  | none =>
    cases hstrip
    rfl
  | some a => exact markerCount_strip (hmarker a rfl) hstrip

theorem Ask.Chain.markerCount (imports : Imports) (h : Ask.Chain name fn asks ps g)
    (hmarker : ∀ a ∈ asks, ∀ attr, a.strip = some attr → (imports.marker? attr).isSome = true) :
    markerCount imports g.attrs + (asks.filterMap Ask.strip).length = markerCount imports fn.attrs := by
  induction h with
  | done => rfl
  | @next f g a as p ps ha _ ih =>
    obtain ⟨plan, -, hsucceeds⟩ := Ask.apply_inv ha
    have hfirst := hsucceeds.markerCount fun attr hattr => hmarker a (by simp) attr hattr
    have hrest := ih fun b hb => hmarker b (by simp [hb])
    have hlength : ((a :: as).filterMap Ask.strip).length = a.strip.toList.length + (as.filterMap Ask.strip).length := by
      rw [List.filterMap_cons]
      cases a.strip <;> simp [Nat.add_comm]
    omega

variable {r : Request}

theorem strips_markers (attrs : List Tree) : (r.markers attrs).filterMap Ask.strip = attrs.filter fun a => (r.imports.marker? a).isSome := by
  induction attrs with
  | nil => rfl
  | cons a as ih =>
    unfold Request.markers at ih ⊢
    rw [List.filterMap_cons, List.filter_cons]
    cases r.imports.marker? a with
    | none => exact ih
    | some m => exact congrArg (a :: ·) ih

/-- All markers of a function are taken away by the probes that they ask for, and a function that is selected has none. -/
theorem chain_unmarked {x : Reached} (h : Ask.Chain x.name x.function (r.asksOf x) ps g) : Unmarked r.imports g.attrs := by
  have hstrips : ∀ attrs : List Tree, ∀ a ∈ r.markers attrs, ∀ attr, a.strip = some attr → (r.imports.marker? attr).isSome = true := by
    intro attrs a ha attr hattr
    obtain ⟨b, -, hb⟩ := List.mem_filterMap.mp ha
    obtain ⟨m, hm, rfl⟩ := Option.map_eq_some_iff.mp hb
    obtain rfl := Option.some.inj hattr
    rw [hm]
    rfl
  rw [unmarked_iff]
  unfold Request.asksOf Request.asks at h
  cases hmarkers : r.markers x.function.attrs with
  | nil =>
    rw [hmarkers] at h
    have hnone : markerCount r.imports x.function.attrs = 0 := by
      rw [markerCount, List.countP_eq_length_filter, ← strips_markers, hmarkers]
      rfl
    have hselected : ∀ a ∈ (if r.targets.contains x.name then (r.plan.map Ask.selected).toList else []), a.strip = none := by
      intro a ha
      split at ha
      · obtain ⟨plan, -, rfl⟩ := Option.map_eq_some_iff.mp (Option.mem_toList.mp ha)
        rfl
      · cases ha
    have hcount := h.markerCount r.imports fun a ha attr hattr => by
      rw [hselected a ha] at hattr
      cases hattr
    omega
  | cons a as =>
    rw [hmarkers] at h
    change Ask.Chain x.name x.function (a :: as) ps g at h
    have hcount := h.markerCount r.imports fun b hb => hstrips _ b (by rw [hmarkers]; exact hb)
    rw [← hmarkers, strips_markers, ← List.countP_eq_length_filter] at hcount
    change _ + markerCount r.imports x.function.attrs = _ at hcount
    omega

/-! ### Functions of a file -/

variable {Q : Tree → Prop} {x : Reached}

theorem unmarked_of_asks_nil (h : r.asksOf x = []) : Unmarked r.imports x.function.attrs := by
  have hmarkers : r.markers x.function.attrs = [] := by
    cases hm : r.markers x.function.attrs with
    | nil => rfl
    | cons a as =>
      unfold Request.asksOf Request.asks at h
      rw [hm] at h
      cases h
  rw [unmarked_iff, markerCount, List.countP_eq_length_filter, ← strips_markers, hmarkers]
  rfl

/-- The attributes of a function that a probe has left, where it is put. -/
theorem attrs_ofParts {attrs : List Tree} {vis sig body : Tree} (h : IsBody body) :
    (Function.ofParts (.node .attrs attrs) vis sig body).attrs = attrs := by
  obtain ⟨d, o, ss, c, rfl⟩ := h
  exact List.append_nil attrs

/-- Items whose functions have no markers. -/
def AllUnmarked (imports : Imports) (xs : List Reached) : Prop := ∀ x ∈ xs, Unmarked imports x.function.attrs

theorem allUnmarked_nil : AllUnmarked imports [] := List.forall_mem_nil _

theorem allUnmarked_append {xs ys : List Reached} :
    AllUnmarked imports (xs ++ ys) ↔ AllUnmarked imports xs ∧ AllUnmarked imports ys := List.forall_mem_append

theorem reachedAll_append (ts us : List Tree) : reachedAll (ts ++ us) = reachedAll ts ++ reachedAll us := by
  induction ts with
  | nil => rfl
  | cons t ts ih => rw [List.cons_append, reachedAll, reachedAll, ih, List.append_assoc]

theorem reachedAll_singleton (t : Tree) : reachedAll [t] = reached t := by
  rw [reachedAll, reachedAll, List.append_nil]

theorem vis_ofParts (attrs vis sig body : Tree) : (Function.ofParts attrs vis sig body).vis = vis := by
  unfold Function.ofParts
  split <;> rfl

/-- A function with a body is left alone, or has a body again. -/
theorem Probes.left (h : Probes r x) {body : Tree} (hbody : x.function.body = some body) (hform : IsBody body) :
    (r.change? x = none ∧ r.asksOf x = []) ∨ ∃ done g b, r.change? x = some (g, done.filterMap (·.details)) ∧
      Ask.Chain x.name x.function (r.asksOf x) done g ∧ g.body = some b ∧ IsBody b := by
  rcases h.change with hleft | ⟨done, g, hsome, -, hchain⟩
  · exact .inl hleft
  · obtain ⟨b, hb, hb'⟩ := hchain.isBody hbody hform
    exact .inr ⟨done, g, b, hsome, hchain, hb, hb'⟩

/-- A function without a body can only be left alone. -/
theorem Probes.left_of_none (h : Probes r x) (hbody : x.function.body = none) : r.change? x = none ∧ r.asksOf x = [] := by
  rcases h.change with hleft | ⟨done, g, -, hne, hchain⟩
  · exact hleft
  · generalize r.asksOf x = asks at hne hchain
    cases hchain with
    | done => exact absurd rfl hne
    | next ha _ =>
      obtain ⟨plan, -, hsucceeds⟩ := Ask.apply_inv ha
      obtain ⟨body, -, -, hsome, -⟩ := hsucceeds.steps
      rw [hbody] at hsome
      cases hsome

theorem allUnmarked_details {done : List Probed} (h : Ask.Chain name fn asks done g) :
    AllUnmarked imports (reachedAll (done.filterMap (·.details))) := by
  have hnone : reachedAll (done.filterMap (·.details)) = [] := by
    have hdetails := h.details
    generalize done.filterMap (·.details) = consts at hdetails
    induction consts with
    | nil => rfl
    | cons c cs ih =>
      obtain ⟨n, before, after, rfl⟩ := hdetails c (by simp)
      rw [reachedAll, ih fun c' hc' => hdetails c' (by simp [hc'])]
      rfl
  rw [hnone]
  exact allUnmarked_nil

theorem allUnmarked_method {scope : String} {t : Tree} (ofTrait : Bool) (hform : MethodForm Q t)
    (h : ∀ x ∈ reachedMethod scope t, Probes r x) :
    AllUnmarked r.imports ((r.editMethod scope ofTrait t).flatMap (reachedMethod scope)) := by
  cases hform with
  | @method attrs vis dflt sig body hattrs hbody =>
    obtain ⟨b, hb, hb'⟩ := ofParts_body attrs vis sig hbody
    have hprobes := h _ (by rw [reachedMethod]; exact List.mem_singleton_self _)
    simp only [Request.editMethod]
    rcases hprobes.left hb hb' with ⟨hnone, hasks⟩ | ⟨done, g, b', hsome, hchain, hg, hform⟩
    · rw [hnone, List.flatMap_singleton, reachedMethod]
      exact List.forall_mem_singleton.mpr (unmarked_of_asks_nil hasks)
    · have hconsts : (if ofTrait then [] else (done.filterMap (·.details)).map memberConst).flatMap (reachedMethod scope) = [] := by
        split
        · rfl
        · refine List.flatMap_eq_nil_iff.mpr fun c hc => ?_
          obtain ⟨const, hconst, rfl⟩ := List.mem_map.mp hc
          obtain ⟨n, before, after, rfl⟩ := hchain.details const hconst
          rfl
      rw [hsome]
      dsimp only
      rw [hg, Option.getD_some, List.flatMap_cons, hconsts, List.append_nil, reachedMethod]
      refine List.forall_mem_singleton.mpr ?_
      rw [attrs_ofParts hform]
      exact chain_unmarked hchain
  | @other k cs hk =>
    have hne : ∀ attrs vis dflt sig body, Source.Tree.node k cs ≠ .node .methodItem [attrs, vis, dflt, sig, body] :=
      fun _ _ _ _ _ he => hk (Tree.node.inj he).1
    rw [editMethod_other hne, List.flatMap_singleton, reachedMethod_other hne]
    exact allUnmarked_nil

theorem allUnmarked_traitFn {scope : String} {t : Tree} (hform : TraitFnForm Q t)
    (h : ∀ x ∈ reachedTraitFn scope t, Probes r x) :
    AllUnmarked r.imports (reachedTraitFn scope (r.editTraitFn scope t)) := by
  cases hform with
  | @provided attrs sig body hattrs hbody =>
    obtain ⟨b, hb, hb'⟩ := ofParts_body attrs .absent sig hbody
    have hprobes := h _ (by rw [reachedTraitFn]; exact List.mem_singleton_self _)
    simp only [Request.editTraitFn]
    rcases hprobes.left hb hb' with ⟨hnone, hasks⟩ | ⟨done, g, b', hsome, hchain, hg, hform⟩
    · rw [hnone, reachedTraitFn]
      exact List.forall_mem_singleton.mpr (unmarked_of_asks_nil hasks)
    · rw [hsome]
      dsimp only
      rw [hg, Option.getD_some, reachedTraitFn]
      refine List.forall_mem_singleton.mpr ?_
      rw [attrs_ofParts hform]
      exact chain_unmarked hchain
  | @required attrs sig semi hattrs =>
    have hprobes := h _ (by rw [reachedTraitFn]; exact List.mem_singleton_self _)
    obtain ⟨hnone, hasks⟩ := hprobes.left_of_none rfl
    simp only [Request.editTraitFn]
    rw [hnone, reachedTraitFn]
    exact List.forall_mem_singleton.mpr (unmarked_of_asks_nil hasks)
  | @other k cs hk =>
    have hne : ∀ attrs sig body, Source.Tree.node k cs ≠ .node .traitFn [attrs, sig, body] := fun _ _ _ he => hk (Tree.node.inj he).1
    rw [editTraitFn_other hne, reachedTraitFn_other hne]
    exact allUnmarked_nil

theorem allUnmarked_editAll {items : List Tree} (hprobes : ∀ x ∈ reachedAll items, Probes r x)
    (h : ∀ t ∈ items, (∀ x ∈ reached t, Probes r x) → AllUnmarked r.imports (reachedAll (r.edit t))) :
    AllUnmarked r.imports (reachedAll (r.editAll items)) := by
  induction items with
  | nil =>
    rw [Request.editAll]
    exact allUnmarked_nil
  | cons t ts ih =>
    rw [reachedAll] at hprobes
    obtain ⟨hhere, hrest⟩ := List.forall_mem_append.mp hprobes
    rw [Request.editAll, reachedAll_append, allUnmarked_append]
    exact ⟨h t (by simp) hhere, ih hrest fun u hu => h u (by simp [hu])⟩

theorem allUnmarked_edit {t : Tree} (hform : ItemForm Q t) (h : ∀ x ∈ reached t, Probes r x) :
    AllUnmarked r.imports (reachedAll (r.edit t)) := by
  induction hform with
  | @free attrs vis sig body hattrs hbody =>
    obtain ⟨b, hb, hb'⟩ := ofParts_body attrs vis sig hbody
    have hprobes := h _ (by rw [reached]; exact List.mem_singleton_self _)
    simp only [Request.edit]
    rcases hprobes.left hb hb' with ⟨hnone, hasks⟩ | ⟨done, g, b', hsome, hchain, hg, hform⟩
    · rw [hnone, reachedAll_singleton, reached]
      exact List.forall_mem_singleton.mpr (unmarked_of_asks_nil hasks)
    · rw [hsome]
      dsimp only
      rw [hg, Option.getD_some, reachedAll, allUnmarked_append, reached]
      refine ⟨List.forall_mem_singleton.mpr ?_, allUnmarked_details hchain⟩
      rw [attrs_ofParts hform]
      exact chain_unmarked hchain
  | module _ ih =>
    simp only [Request.edit]
    rw [reachedAll_singleton, reached]
    exact allUnmarked_editAll (by simpa only [reached] using h) ih
  | elsewhere => exact allUnmarked_nil
  | @implementation attrs dflt u i gs of self w inner d o c members hmembers =>
    simp only [Request.edit]
    rw [reachedAll_singleton]
    simp only [reached] at h ⊢
    intro x hx
    obtain ⟨member, hmember, hx⟩ := List.mem_flatMap.mp hx
    obtain ⟨m, hm, hmember⟩ := List.mem_flatMap.mp hmember
    exact allUnmarked_method _ (hmembers m hm) (fun y hy => h y (List.mem_flatMap.mpr ⟨m, hm, hy⟩)) x
      (List.mem_flatMap.mpr ⟨member, hmember, hx⟩)
  | @trait attrs vis u a t n gs colon bs w inner d o c members hmembers =>
    simp only [Request.edit]
    rw [reachedAll_singleton]
    simp only [reached] at h ⊢
    intro x hx
    obtain ⟨member, hmember, hx⟩ := List.mem_flatMap.mp hx
    obtain ⟨m, hm, rfl⟩ := List.mem_map.mp hmember
    exact allUnmarked_traitFn (hmembers m hm) (fun y hy => h y (List.mem_flatMap.mpr ⟨m, hm, hy⟩)) x hx
  | other hk =>
    rw [edit_other hk, reachedAll_singleton, Project.reached_other hk]
    exact allUnmarked_nil

/-- No function that a pass reaches in the file that it leaves has a marker, by the imports that the pass went by. -/
theorem allUnmarked_editFile {ts : List TokenTree} {file : Tree} (h : Grammar.parseFile ts = .ok file)
    (hprobes : ∀ x ∈ reachedIn file, Probes r x) : AllUnmarked r.imports (reachedIn (r.editFile file)) := by
  obtain ⟨attrs, items, rfl, hitems⟩ := parseFile_items (Q := fun _ => True) (fun _ _ _ _ _ => trivial)
    (fun _ _ _ _ _ => trivial) h
  simp only [Request.editFile, reachedIn]
  exact allUnmarked_editAll hprobes fun t ht hx => allUnmarked_edit (hitems t ht) hx

end CallProbe.Probe
