import CallProbe.Proofs.Pass.Unmarked

/-! # Rounds

A function with markers can be probed in rounds: the first marker that it has now is looked up, the function is probed as
that marker says, and what is left goes into the next round. A round takes one marker away, at its own place, and adds
none, so the rounds come to an end, and they are the probes that the markers ask for from the start (`rounds_outcome`). -/

namespace CallProbe.Probe

open Source Call Parse

/-! ### The functions of a file -/

variable {Q : Tree → Prop}

theorem form_of_reached {t : Tree} (hform : ItemForm Q t) : ∀ x ∈ reached t, FunctionForm Q x.function := by
  induction hform with
  | free hattrs hbody =>
    rw [reached]
    exact List.forall_mem_singleton.mpr (form_ofParts hattrs hbody)
  | @module _ _ _ _ _ _ _ _ _ items hitems ih =>
    rw [reached]
    -- The items of a module are reached one after the other.
    clear hitems
    induction items with
    | nil => exact List.forall_mem_nil _
    | cons t ts ihs =>
      rw [reachedAll]
      exact List.forall_mem_append.mpr ⟨ih t (by simp), ihs fun u hu => ih u (by simp [hu])⟩
  | elsewhere => exact List.forall_mem_nil _
  | @implementation _ _ _ _ _ _ self _ _ _ _ _ members hmembers =>
    rw [reached]
    intro x hx
    obtain ⟨m, hm, hx⟩ := List.mem_flatMap.mp hx
    cases hmembers m hm with
    | method hattrs hbody =>
      rw [reachedMethod, List.mem_singleton] at hx
      rw [hx]
      exact form_ofParts hattrs hbody
    | other hk =>
      rw [reachedMethod_other fun _ _ _ _ _ he => hk (Tree.node.inj he).1] at hx
      cases hx
  | @trait _ _ _ _ _ _ _ _ _ _ _ _ _ _ members hmembers =>
    rw [reached]
    intro x hx
    obtain ⟨m, hm, hx⟩ := List.mem_flatMap.mp hx
    cases hmembers m hm with
    | provided hattrs hbody =>
      rw [reachedTraitFn, List.mem_singleton] at hx
      rw [hx]
      exact form_ofParts hattrs hbody
    | required hattrs =>
      obtain ⟨as, rfl, has⟩ := hattrs
      rw [reachedTraitFn, List.mem_singleton] at hx
      rw [hx]
      exact ⟨has, fun b hb => by cases hb⟩
    | other hk =>
      rw [reachedTraitFn_other fun _ _ _ he => hk (Tree.node.inj he).1] at hx
      cases hx
  | other hk =>
    rw [Project.reached_other hk]
    exact List.forall_mem_nil _

theorem form_of_parseFile {ts : List TokenTree} {file : Tree} (h : Grammar.parseFile ts = .ok file) :
    ∀ x ∈ reachedIn file, FunctionForm AttrForm x.function := by
  obtain ⟨attrs, items, rfl, hitems⟩ := parseFile_items (fun _ => outerAttr_form) (fun _ => innerAttr_form) h
  rw [reachedIn]
  clear h
  induction items with
  | nil => exact List.forall_mem_nil _
  | cons t ts ih =>
    rw [reachedAll]
    exact List.forall_mem_append.mpr ⟨form_of_reached (hitems t (by simp)), ih fun u hu => hitems u (by simp [hu])⟩

/-! ### The attribute that a transform may add -/

variable {imports : Imports} {name : String} {f g left : Function} {body attr : Tree} {marker : Marker} {plan : Plan}
  {count : Nat} {p : Probed} {r : Request} {asks : List Ask} {ps : List Probed} {result : Except Failure Function}

theorem grouped_allowAttr : allowAttr.grouped = allowAttr := rfl

theorem marker?_allowAttr : imports.marker? allowAttr = none := rfl

/-! ### One round -/

/-- The first marker that a function has, its plan, and the function without that very attribute. -/
structure Turn (imports : Imports) (f : Function) (marker : Marker) (attr : Tree) (plan : Plan) (left : Function) : Prop where
  found : imports.marker? attr = some marker
  planned : Plan.ofAttr marker attr = .ok plan
  place : ∃ before after, f.attrs = before ++ attr :: after ∧ Unmarked imports before ∧
    left = { f with attrs := before ++ after }

/-- An attribute that equals the first marker is a marker, so none stands in front of it. -/
theorem Turn.strip? (h : Turn imports f marker attr plan left) : f.strip? attr = some left := by
  obtain ⟨before, after, hattrs, hbefore, rfl⟩ := h.place
  have hhas : f.hasAttr attr = true := by simp [Function.hasAttr, hattrs, Tree.same_refl]
  have hnone : ∀ b ∈ before, ¬b.same attr = true := fun b hb hsame => by
    have hfound := h.found
    rw [← marker?_of_same hsame, hbefore b hb] at hfound
    cases hfound
  have herase : f.attrs.eraseP (·.same attr) = before ++ after := by
    rw [hattrs, List.eraseP_append_right _ hnone, List.eraseP_cons, Tree.same_refl, cond_true]
  rw [Function.strip?, if_pos hhas, herase]

theorem Turn.ending (h : Turn imports f marker attr plan left) (hbody : f.body = some body) (hconst : f.isConst = false)
    (name : String) : Ending plan name left body (probe f name plan (some attr)) := by
  obtain ⟨before, after, -, -, hleft⟩ := h.place
  rw [probe_eq hbody (show (some attr).elim (some f) f.strip? = some left from h.strip?)]
  cases f.render body with
  | error part => exact .unprintable part
  | ok source => exact rebuild_ending (by rw [hleft, hbody]) (by rw [hleft]; exact hconst) plan name source

theorem Turn.apply (h : Turn imports f marker attr plan left) (name : String) :
    (Ask.marked marker attr).apply name f = probe f name plan (some attr) :=
  Ask.apply_marked h.planned name f

/-- A function with a body that runs at run time and whose markers all have plans; parentheses leave the markers alone. -/
structure Ready (imports : Imports) (f : Function) : Prop where
  runs : f.isConst = false
  body : ∃ b, f.body = some b
  planned : ∀ a ∈ f.attrs, ∀ m, imports.marker? a = some m → a.grouped = a ∧ ∃ plan, Plan.ofAttr m a = .ok plan

theorem Ready.turn (h : Ready r.imports f) {a : Ask} (hasks : r.markers f.attrs = a :: asks) :
    ∃ marker attr plan left, a = .marked marker attr ∧ Turn r.imports f marker attr plan left ∧
      r.markers left.attrs = asks := by
  obtain ⟨before, attr, after, hattrs, hbefore, hattr, hafter⟩ := List.filterMap_eq_cons_iff.mp hasks
  obtain ⟨m, hm, rfl⟩ := Option.map_eq_some_iff.mp hattr
  have hunmarked : Unmarked r.imports before := fun b hb => Option.map_eq_none_iff.mp (hbefore b hb)
  obtain ⟨-, plan, hplan⟩ := h.planned attr (by simp [hattrs]) m hm
  refine ⟨m, attr, plan, { f with attrs := before ++ after }, rfl, ⟨hm, hplan, before, after, hattrs, hunmarked, rfl⟩, ?_⟩
  rw [Request.markers, List.filterMap_append, hafter, List.filterMap_eq_nil_iff.mpr hbefore, List.nil_append]

def isConstSig : Tree → Bool
  | .node .signature (c :: _) => c.isPresent
  | _ => false

theorem isConstSig_regular {f : Tree → Tree} (h : Regular f) (t : Tree) : isConstSig (f t) = isConstSig t := by
  refine h.read_kind .signature false rfl (fun t ht => ?_) (fun cs => ?_) t
  · unfold isConstSig
    split
    · exact absurd rfl ht
    · rfl
  · cases cs with
    | nil => rfl
    | cons c _ => exact h.isPresent c

/-- What a round leaves: the attributes without the marker, and one more at most. -/
structure Leaves (left : Function) (p : Probed) : Prop where
  runs : p.item.isConst = left.isConst
  body : ∃ b, p.item.body = some b
  attrs : ∃ added, p.item.attrs = (left.attrs ++ added).map Tree.grouped ∧
    (added = [] ∨ added = [allowAttr] ∧ allowAttr ∉ left.attrs)

theorem leaves_of_ending (hbody : left.body = some body) (h : Ending plan name left body (.ok p)) : Leaves left p := by
  cases h with
  | @done g k count _ htransform _ _ hitem _ =>
  have hchanges := Plan.transform_changes hbody htransform
  obtain ⟨b, hb, -⟩ := hchanges.body
  refine ⟨?_, ⟨b.grouped, by rw [hitem, Function.grouped, hb, Option.map_some]⟩, ?_⟩
  · have hsig : isConstSig g.sig.grouped = isConstSig g.sig := isConstSig_regular (regular_tree .least) g.sig
    rw [hchanges.sig] at hsig
    rw [hitem]
    change isConstSig g.grouped.sig = isConstSig left.sig
    rw [Function.grouped, hchanges.sig, hsig]
  · rw [hitem, Function.grouped]
    rcases Plan.transform_adds hbody htransform with hattrs | ⟨hnot, hattrs⟩
    · exact ⟨[], by rw [hattrs, List.append_nil], .inl rfl⟩
    · exact ⟨[allowAttr], by rw [hattrs], .inr ⟨rfl, hnot⟩⟩

theorem markers_map_grouped {attrs : List Tree} (h : ∀ a ∈ attrs, ∀ m, r.imports.marker? a = some m → a.grouped = a) :
    r.markers (attrs.map Tree.grouped) = r.markers attrs := by
  rw [Request.markers, List.filterMap_map]
  refine List.filterMap_congr fun a ha => ?_
  have hmarker : r.imports.marker? a.grouped = r.imports.marker? a := marker?_regular (regular_tree .least) a
  cases hm : r.imports.marker? a with
  | none => simp [hmarker, hm]
  | some m => simp [hm, h a ha m hm]

/-- After a round, the markers that are asked for are those that were left. -/
theorem Ready.next (h : Ready r.imports f) (hturn : Turn r.imports f marker attr plan left) (hleaves : Leaves left p) :
    Ready r.imports p.item ∧ r.markers p.item.attrs = r.markers left.attrs := by
  obtain ⟨before, after, hattrs, -, hleft⟩ := hturn.place
  obtain ⟨added, hitem, hadded⟩ := hleaves.attrs
  have hkept : ∀ a ∈ left.attrs ++ added, ∀ m, r.imports.marker? a = some m →
      a.grouped = a ∧ ∃ plan, Plan.ofAttr m a = .ok plan := by
    intro a ha m hm
    rcases List.mem_append.mp ha with ha | ha
    · refine h.planned a ?_ m hm
      rw [hleft] at ha
      rw [hattrs]
      exact (List.Sublist.append_left (List.sublist_cons_self attr after) before).subset ha
    · rcases hadded with rfl | ⟨rfl, -⟩
      · cases ha
      · rw [List.mem_singleton.mp ha, marker?_allowAttr] at hm
        cases hm
  refine ⟨⟨?_, hleaves.body, fun a ha m hm => ?_⟩, ?_⟩
  · rw [hleaves.runs, hleft]
    exact h.runs
  · rw [hitem] at ha
    obtain ⟨b, hb, rfl⟩ := List.mem_map.mp ha
    have hmarker : r.imports.marker? b = some m := (marker?_regular (regular_tree .least) b).symm.trans hm
    obtain ⟨hgrouped, hplan⟩ := hkept b hb m hmarker
    rw [hgrouped]
    exact ⟨hgrouped, hplan⟩
  · have hmarkers : r.markers added = [] := by
      rcases hadded with rfl | ⟨rfl, -⟩ <;> rfl
    rw [hitem, markers_map_grouped fun a ha m hm => (hkept a ha m hm).1, Request.markers, List.filterMap_append]
    exact (congrArg _ hmarkers).trans (List.append_nil _)

/-! ### All rounds -/

theorem markerCount_round {a : Ask} (ha : (r.markers f.attrs).head? = some a) (h : a.apply name f = .ok p) :
    markerCount r.imports p.item.attrs < markerCount r.imports f.attrs := by
  obtain ⟨attr, -, hattr⟩ := List.mem_filterMap.mp (List.mem_of_mem_head? ha)
  obtain ⟨m, hm, rfl⟩ := Option.map_eq_some_iff.mp hattr
  obtain ⟨plan, -, hsucceeds⟩ := Ask.apply_inv h
  have hcount := hsucceeds.markerCount fun b hb => by
    obtain rfl := Option.some.inj hb
    rw [hm]
    rfl
  change _ + 1 = _ at hcount
  omega

/-- The probes of a function in rounds, as long as it has a marker. -/
def Request.rounds (r : Request) (name : String) (f : Function) : Except Failure (List Probed) :=
  match _first : (r.markers f.attrs).head? with
  | none => .ok []
  | some a =>
    match _done : a.apply name f with
    | .error e => .error e
    | .ok p => (r.rounds name p.item).map (p :: ·)
termination_by markerCount r.imports f.attrs
decreasing_by exact markerCount_round _first _done

theorem rounds_nil (h : r.markers f.attrs = []) : r.rounds name f = .ok [] := by
  rw [Request.rounds]
  split
  · rfl
  · rename_i ha
    rw [h] at ha
    cases ha

theorem rounds_cons {a : Ask} (h : r.markers f.attrs = a :: asks) :
    r.rounds name f = (a.apply name f).bind fun p => (r.rounds name p.item).map (p :: ·) := by
  rw [Request.rounds]
  split
  · rename_i ha
    rw [h] at ha
    cases ha
  · rename_i b ha
    obtain rfl : a = b := by rw [h] at ha; exact Option.some.inj ha
    split
    · rename_i e he
      rw [he]
      rfl
    · rename_i p hp
      rw [hp]
      rfl

/-- The rounds of a function, for its markers in their order: each finds the marker as the first one, takes away that very
    attribute, and puts what is left through the marker's plan. They end without a marker, or at a round that fails. -/
inductive Rounds (imports : Imports) (name : String) : Function → List Ask → List Probed → Except Failure Function → Prop where
  | done {f : Function} (h : Unmarked imports f.attrs) : Rounds imports name f [] [] (.ok f)
  | fails {f left : Function} {marker : Marker} {attr body : Tree} {plan : Plan} {asks : List Ask} {e : Failure}
      (hturn : Turn imports f marker attr plan left) (hbody : f.body = some body)
      (hend : Ending plan name left body (.error e)) : Rounds imports name f (.marked marker attr :: asks) [] (.error e)
  | next {f left : Function} {marker : Marker} {attr body : Tree} {plan : Plan} {asks : List Ask} {p : Probed}
      {ps : List Probed} {result : Except Failure Function} (hturn : Turn imports f marker attr plan left)
      (hbody : f.body = some body) (hend : Ending plan name left body (.ok p))
      (hrest : Rounds imports name p.item asks ps result) :
      Rounds imports name f (.marked marker attr :: asks) (p :: ps) result

theorem body_of_turn (hturn : Turn imports f marker attr plan left) (hbody : f.body = some body) : left.body = some body := by
  obtain ⟨before, after, -, -, rfl⟩ := hturn.place
  exact hbody

/-- The rounds are the probes that the markers ask for from the start. -/
theorem Ready.rounds (h : Ready r.imports f) (name : String) :
    r.rounds name f = Ask.applyAll name f (r.markers f.attrs) ∧
      ∃ ps result, Rounds r.imports name f (r.markers f.attrs) ps result ∧ r.rounds name f = result.map fun _ => ps := by
  generalize hasks : r.markers f.attrs = asks
  induction asks generalizing f with
  | nil =>
    have hunmarked : Unmarked r.imports f.attrs := fun a ha =>
      Option.map_eq_none_iff.mp (List.filterMap_eq_nil_iff.mp hasks a ha)
    exact ⟨rounds_nil hasks, [], .ok f, .done hunmarked, rounds_nil hasks⟩
  | cons a asks ih =>
    obtain ⟨marker, attr, plan, left, rfl, hturn, hleft⟩ := h.turn hasks
    obtain ⟨body, hbody⟩ := h.body
    have hend := hturn.ending hbody h.runs name
    rw [rounds_cons hasks, Ask.applyAll_cons, hturn.apply]
    cases hprobe : probe f name plan (some attr) with
    | error e =>
      rw [hprobe] at hend
      exact ⟨rfl, [], .error e, .fails hturn hbody hend, rfl⟩
    | ok p =>
      rw [hprobe] at hend
      obtain ⟨hready, hmarkers⟩ := h.next hturn (leaves_of_ending (body_of_turn hturn hbody) hend)
      obtain ⟨hsame, ps, result, hrest, hrounds⟩ := ih hready (hmarkers.trans hleft)
      refine ⟨?_, p :: ps, result, .next hturn hbody hend hrest, ?_⟩
      · rw [Except.bind, Except.bind, hsame]
      · rw [Except.bind, hrounds]
        cases result <;> rfl

/-- A round for each marker, if none fails. -/
theorem Rounds.length_eq (h : Rounds imports name f asks ps (.ok g)) : ps.length = asks.length := by
  generalize hresult : Except.ok g = result at h
  induction h with
  | done => rfl
  | fails => cases hresult
  | next _ _ _ _ ih => rw [List.length_cons, List.length_cons, ih hresult]

/-- A round that fails is one of a marker. -/
theorem Rounds.length_lt {e : Failure} (h : Rounds imports name f asks ps (.error e)) : ps.length < asks.length := by
  generalize hresult : Except.error e = result at h
  induction h with
  | done => cases hresult
  | fails => simp
  | next _ _ _ _ ih => simpa using ih hresult

/-- What is left after the rounds is what the last one has left. -/
theorem Rounds.item_eq (h : Rounds imports name f asks ps (.ok g)) : (ps.getLast?.map (·.item)).getD f = g := by
  generalize hresult : Except.ok g = result at h
  induction h with
  | done => exact (Except.ok.inj hresult).symm
  | fails => cases hresult
  | next _ _ _ hrest ih =>
    cases hrest with
    | done => exact (Except.ok.inj hresult).symm
    | fails => cases hresult
    | next =>
      rw [List.getLast?_cons_cons]
      exact ih hresult

theorem length_markers (attrs : List Tree) : (r.markers attrs).length = markerCount r.imports attrs := by
  rw [Request.markers, List.length_filterMap_eq_countP, markerCount]
  exact List.countP_congr fun a _ => by rw [Option.isSome_map]

/-- The attributes that are no markers. -/
def unmarked (imports : Imports) (attrs : List Tree) : List Tree := attrs.filter fun a => (imports.marker? a).isNone

theorem unmarked_map_grouped (attrs : List Tree) :
    unmarked imports (attrs.map Tree.grouped) = (unmarked imports attrs).map Tree.grouped := by
  rw [unmarked, List.filter_map]
  refine congrArg _ (List.filter_congr fun a _ => ?_)
  exact congrArg Option.isNone (marker?_regular (regular_tree .least) a)

theorem unmarked_of_turn (h : Turn imports f marker attr plan left) :
    unmarked imports left.attrs = unmarked imports f.attrs := by
  obtain ⟨before, after, hattrs, -, rfl⟩ := h.place
  simp [unmarked, hattrs, h.found]

theorem mem_left (h : Turn imports f marker attr plan left) (hmem : allowAttr ∈ f.attrs) : allowAttr ∈ left.attrs := by
  have hunmarked : allowAttr ∈ unmarked imports f.attrs := List.mem_filter.mpr ⟨hmem, rfl⟩
  rw [← unmarked_of_turn h] at hunmarked
  exact List.mem_of_mem_filter hunmarked

theorem map_grouped_grouped (ts : List Tree) : (ts.map Tree.grouped).map Tree.grouped = ts.map Tree.grouped := by
  rw [List.map_map]
  exact List.map_congr_left fun t _ => t.grouped_grouped

/-- The attributes after all rounds, up to parentheses in values: those that are no markers, and one more at most. -/
theorem Rounds.attrs (h : Rounds imports name f asks ps (.ok g)) :
    g.attrs.map Tree.grouped = (unmarked imports f.attrs).map Tree.grouped ∨ allowAttr ∉ f.attrs ∧
      g.attrs.map Tree.grouped = (unmarked imports f.attrs ++ [allowAttr]).map Tree.grouped := by
  generalize hresult : Except.ok g = result at h
  induction h with
  | @done f h =>
    obtain rfl := Except.ok.inj hresult
    have hall : unmarked imports g.attrs = g.attrs := List.filter_eq_self.mpr fun a ha => by rw [h a ha]; rfl
    exact .inl (by rw [hall])
  | fails => cases hresult
  | @next f left marker attr body plan asks p ps result hturn hbody hend hrest ih =>
    obtain ⟨added, hitem, hadded⟩ := (leaves_of_ending (body_of_turn hturn hbody) hend).attrs
    have hkept : (unmarked imports p.item.attrs).map Tree.grouped = (unmarked imports f.attrs ++ added).map Tree.grouped := by
      have hadd : unmarked imports added = added := by rcases hadded with rfl | ⟨rfl, -⟩ <;> rfl
      rw [hitem, unmarked_map_grouped, map_grouped_grouped, unmarked, List.filter_append, ← unmarked, ← unmarked, hadd,
        unmarked_of_turn hturn]
    rw [List.map_append, hkept] at ih
    rcases hadded with rfl | ⟨rfl, hnot⟩
    · rw [List.append_nil, ← List.map_append] at ih
      refine (ih hresult).imp_right fun ⟨hnot, hattrs⟩ => ⟨fun hmem => hnot ?_, hattrs⟩
      rw [hitem, List.append_nil]
      exact List.mem_map.mpr ⟨allowAttr, mem_left hturn hmem, rfl⟩
    · refine .inr ⟨fun hmem => hnot (mem_left hturn hmem), ?_⟩
      rcases ih hresult with hattrs | ⟨habsent, -⟩
      · exact hattrs
      · refine absurd ?_ habsent
        rw [hitem]
        exact List.mem_map.mpr ⟨allowAttr, by simp, rfl⟩

/-- After at least one round the attributes are as they are read. -/
theorem Rounds.grouped (h : Rounds imports name f asks ps (.ok g)) (hne : asks ≠ []) : g.attrs.map Tree.grouped = g.attrs := by
  generalize hresult : Except.ok g = result at h
  induction h with
  | done => exact absurd rfl hne
  | fails => cases hresult
  | @next f left marker attr body plan asks p ps result hturn hbody hend hrest ih =>
    cases hrest with
    | done =>
      obtain rfl := Except.ok.inj hresult
      obtain ⟨added, hitem, -⟩ := (leaves_of_ending (body_of_turn hturn hbody) hend).attrs
      rw [hitem, map_grouped_grouped]
    | fails => cases hresult
    | next => exact ih (by simp) hresult

/-! ### Outcomes -/

/-- Whether a function has a body, runs at run time, stands behind outer attributes only, and has the given number of markers,
    all with plans. -/
def isMarked (imports : Imports) (f : Function) (count : Nat) : Bool :=
  f.body.isSome && !f.isConst && f.attrs.all (!isInnerAttr ·) && markerCount imports f.attrs == count &&
    f.attrs.all fun a => (imports.marker? a).all fun m => (Plan.ofAttr m a).isOk

theorem isMarked_iff {imports : Imports} {f : Function} {count : Nat} : isMarked imports f count = true ↔
    (∃ body, f.body = some body) ∧ f.isConst = false ∧ (∀ a ∈ f.attrs, isInnerAttr a = false) ∧
      markerCount imports f.attrs = count ∧
      ∀ a ∈ f.attrs, ∀ m, imports.marker? a = some m → ∃ plan, Plan.ofAttr m a = .ok plan := by
  have hmarker : ∀ a, ((imports.marker? a).all fun m => (Plan.ofAttr m a).isOk) = true ↔
      ∀ m, imports.marker? a = some m → ∃ plan, Plan.ofAttr m a = .ok plan := by
    intro a
    cases imports.marker? a <;> simp [isOk_iff]
  simp only [isMarked, Bool.and_eq_true, Bool.not_eq_true', beq_iff_eq, List.all_eq_true, hmarker, Option.isSome_iff_exists,
    and_assoc]

end CallProbe.Probe
