import CallProbe.Proofs.Pass.Unmarked

/-! # Markers where shapes are kept

A map that keeps shapes changes nothing that decides which functions a pass reaches and which of their attributes are
markers, so no function of a file has a marker afterwards exactly if none had one before. -/

namespace CallProbe.Probe

open Source Call Parse

variable {f : Tree → Tree} {imports : Imports}

/-! ### Markers of a tree that keeps its shape -/

/-- The number of markers in a list of attributes. -/
def listedMarkers (imports : Imports) (t : Tree) : Nat := markerCount imports t.attrList

def bracedMarkers (imports : Imports) : Tree → Nat
  | .group _ _ [attrs, _] _ => listedMarkers imports attrs
  | _ => 0

/-- The number of markers at the start of a body. -/
def innerMarkers (imports : Imports) : Tree → Nat
  | .node .block [braced] => bracedMarkers imports braced
  | _ => 0

theorem listedMarkers_regular (h : Regular f) (t : Tree) : listedMarkers imports (f t) = listedMarkers imports t := by
  refine h.read_kind .attrs 0 rfl (fun t ht => ?_) (markerCount_map h) t
  unfold listedMarkers Tree.attrList
  split
  · exact absurd rfl ht
  · rfl

theorem bracedMarkers_regular (h : Regular f) (t : Tree) : bracedMarkers imports (f t) = bracedMarkers imports t := by
  refine h.read_group 0 (fun t ht => ?_) (fun d o c o' c' ts => ?_) t
  · unfold bracedMarkers
    split
    · exact absurd rfl (ht _ _ _ _)
    · rfl
  · match ts with
    | [attrs, _] => exact listedMarkers_regular h attrs
    | [] | [_] => rfl
    | _ :: _ :: _ :: _ => rfl

theorem innerMarkers_regular (h : Regular f) (t : Tree) : innerMarkers imports (f t) = innerMarkers imports t := by
  refine h.read_kind .block 0 rfl (fun t ht => ?_) (fun cs => ?_) t
  · unfold innerMarkers
    split
    · exact absurd rfl ht
    · rfl
  · match cs with
    | [braced] => exact bracedMarkers_regular h braced
    | [] => rfl
    | _ :: _ :: _ => rfl

theorem markerCount_ofParts (attrs vis sig body : Tree) :
    markerCount imports (Function.ofParts attrs vis sig body).attrs = listedMarkers imports attrs + innerMarkers imports body := by
  unfold Function.ofParts
  split
  · rename_i cs
    rw [markerCount, List.countP_append]
    refine congrArg _ ?_
    unfold innerMarkers Function.splitBody
    split
    · rename_i he
      cases he
      rfl
    · rename_i hother
      split
      · rename_i braced he
        cases he
        unfold bracedMarkers
        split
        · exact absurd rfl (hother _ _ _ _ _)
        · rfl
      · rfl
  · rename_i hother
    unfold innerMarkers
    split
    · exact absurd rfl (hother _)
    · rfl

/-! ### Items in braces -/

def nodeItems : Tree → List Tree
  | .node .items items => items
  | _ => []

/-- The items or members in the braces of an item. -/
def bodyItems : Tree → List Tree
  | .group _ _ [_, items] _ => nodeItems items
  | _ => []

theorem nodeItems_regular (h : Regular f) (t : Tree) : nodeItems (f t) = nodeItems t ∨ nodeItems (f t) = (nodeItems t).map f := by
  have hnil : ∀ u, (∀ items, u ≠ .node .items items) → nodeItems u = [] := by
    intro u hu
    unfold nodeItems
    split
    · exact absurd rfl (hu _)
    · rfl
  by_cases hform : ∃ items, t = .node .items items
  · obtain ⟨items, rfl⟩ := hform
    rcases h.plain (k := .items) items rfl with heq | heq
    · exact .inl (by rw [heq])
    · exact .inr (by rw [heq]; rfl)
  · refine .inl ?_
    rw [hnil t fun items he => hform ⟨items, he⟩, hnil]
    intro items he
    obtain ⟨cs, rfl, -⟩ := h.node_inv rfl he
    exact hform ⟨cs, rfl⟩

theorem bodyItems_regular (h : Regular f) (t : Tree) : bodyItems (f t) = bodyItems t ∨ bodyItems (f t) = (bodyItems t).map f := by
  have hnil : ∀ u, (∀ d o inner items c, u ≠ .group d o [inner, items] c) → bodyItems u = [] := by
    intro u hu
    unfold bodyItems
    split
    · exact absurd rfl (hu _ _ _ _ _)
    · rfl
  by_cases hform : ∃ d o inner items c, t = .group d o [inner, items] c
  · obtain ⟨d, o, inner, items, c, rfl⟩ := hform
    obtain ⟨o', c', heq⟩ := h.group d o c [inner, items]
    rw [heq]
    exact nodeItems_regular h items
  · refine .inl ?_
    rw [hnil t fun d o inner items c he => hform ⟨d, o, inner, items, c, he⟩, hnil]
    intro d o inner items c he
    obtain ⟨o', content, c', rfl, hcontent⟩ := h.group_inv he
    obtain ⟨inner', rest, rfl, -, hrest⟩ := List.map_eq_cons_iff.mp hcontent.symm
    obtain ⟨items', rfl, -⟩ := List.map_eq_singleton_iff.mp hrest
    exact hform ⟨d, o', inner', items', c', rfl⟩

theorem mem_bodyItems {t item : Tree} (h : item ∈ bodyItems t) : sizeOf item < sizeOf t := by
  unfold bodyItems at h
  split at h
  · unfold nodeItems at h
    split at h
    · have := List.sizeOf_lt_of_mem h
      simp
      omega
    · cases h
  · cases h

theorem all_bodyItems (h : Regular f) {p : Tree → Bool} {t : Tree} (hp : ∀ item ∈ bodyItems t, p (f item) = p item) :
    (bodyItems (f t)).all p = (bodyItems t).all p := by
  rcases bodyItems_regular h t with heq | heq
  · rw [heq]
  · rw [heq, List.all_map, Bool.eq_iff_iff, List.all_eq_true, List.all_eq_true]
    exact forall₂_congr fun item hitem => by rw [Function.comp_apply, hp item hitem]

theorem bodyItems_group (d : Delimiter) (o c : Pos) (inner : Tree) (items : List Tree) :
    bodyItems (.group d o [inner, .node .items items] c) = items := rfl

/-! ### Functions of a tree that keeps its shape -/

/-- Whether a function has no marker. -/
def isUnmarked (imports : Imports) (x : Reached) : Bool := markerCount imports x.function.attrs == 0

theorem allUnmarked_iff {xs : List Reached} : AllUnmarked imports xs ↔ xs.all (isUnmarked imports) = true := by
  rw [List.all_eq_true]
  exact forall₂_congr fun x _ => by rw [unmarked_iff, isUnmarked, beq_iff_eq]

theorem isUnmarked_ofParts (h : Regular f) (name name' : String) (attrs vis vis' sig sig' body : Tree) :
    isUnmarked imports ⟨name', Function.ofParts (f attrs) vis' sig' (f body)⟩ =
      isUnmarked imports ⟨name, Function.ofParts attrs vis sig body⟩ := by
  rw [isUnmarked, isUnmarked, markerCount_ofParts, markerCount_ofParts, listedMarkers_regular h, innerMarkers_regular h]

def methodUnmarked (imports : Imports) (t : Tree) : Bool := (reachedMethod "" t).all (isUnmarked imports)

def traitFnUnmarked (imports : Imports) (t : Tree) : Bool := (reachedTraitFn "" t).all (isUnmarked imports)

theorem all_reachedMethod (scope : String) (t : Tree) :
    (reachedMethod scope t).all (isUnmarked imports) = methodUnmarked imports t := by
  unfold methodUnmarked reachedMethod
  split <;> rfl

theorem all_reachedTraitFn (scope : String) (t : Tree) :
    (reachedTraitFn scope t).all (isUnmarked imports) = traitFnUnmarked imports t := by
  unfold traitFnUnmarked reachedTraitFn
  split <;> rfl

theorem methodUnmarked_regular (h : Regular f) (t : Tree) : methodUnmarked imports (f t) = methodUnmarked imports t := by
  refine h.read_kind .methodItem true rfl (fun t ht => ?_) (fun cs => ?_) t
  · unfold methodUnmarked reachedMethod
    split
    · exact absurd rfl ht
    · rfl
  · match cs with
    | [attrs, vis, _, sig, body] =>
      exact congrArg (· && true) (isUnmarked_ofParts h ..)
    | [] | [_] | [_, _] | [_, _, _] | [_, _, _, _] => rfl
    | _ :: _ :: _ :: _ :: _ :: _ :: _ => rfl

theorem traitFnUnmarked_regular (h : Regular f) (t : Tree) : traitFnUnmarked imports (f t) = traitFnUnmarked imports t := by
  refine h.read_kind .traitFn true rfl (fun t ht => ?_) (fun cs => ?_) t
  · unfold traitFnUnmarked reachedTraitFn
    split
    · exact absurd rfl ht
    · rfl
  · match cs with
    | [attrs, sig, body] => exact congrArg (· && true) (isUnmarked_ofParts h ..)
    | [] | [_] | [_, _] => rfl
    | _ :: _ :: _ :: _ :: _ => rfl

/-- Whether no function that a pass meets in an item has a marker. -/
def itemUnmarked (imports : Imports) (t : Tree) : Bool := (reached t).all (isUnmarked imports)

theorem all_reachedAll (ts : List Tree) : (reachedAll ts).all (isUnmarked imports) = ts.all (itemUnmarked imports) := by
  induction ts with
  | nil => rw [reachedAll, List.all_nil, List.all_nil]
  | cons t ts ih => rw [reachedAll, List.all_append, ih, List.all_cons, itemUnmarked]

theorem bodyItems_of_ne {t : Tree} (h : ∀ d o inner items c, t ≠ .group d o [inner, .node .items items] c) : bodyItems t = [] := by
  unfold bodyItems
  split
  · unfold nodeItems
    split
    · exact absurd rfl (h _ _ _ _ _)
    · rfl
  · rfl

/-- The number of parts of an item that holds functions. -/
def partsOfItem : Kind → Nat
  | .fnItem => 4
  | .modItem => 6
  | .implItem => 9
  | _ => 11

theorem reached_of_length {k : Kind} {cs : List Tree} (hk : holdsFns k = true) (h : cs.length ≠ partsOfItem k) :
    reached (.node k cs) = [] := by
  unfold reached
  split
  all_goals first
    | rfl
    | (rename_i he; cases he; exact absurd rfl h)

/-- The body of a module, an implementation or a trait is a group of items, or it holds none. -/
theorem bodyItems_forms (body : Tree) : (∃ d o inner items c, body = .group d o [inner, .node .items items] c) ∨
    (∀ d o inner items c, body ≠ .group d o [inner, .node .items items] c) ∧ bodyItems body = [] := by
  by_cases hform : ∃ d o inner items c, body = .group d o [inner, .node .items items] c
  · exact .inl hform
  · have hne : ∀ d o inner items c, body ≠ .group d o [inner, .node .items items] c :=
      fun d o inner items c he => hform ⟨d, o, inner, items, c, he⟩
    exact .inr ⟨hne, bodyItems_of_ne hne⟩

theorem reached_module (attrs vis u m n body : Tree) :
    reached (.node .modItem [attrs, vis, u, m, n, body]) = reachedAll (bodyItems body) := by
  obtain ⟨d, o, inner, items, c, rfl⟩ | ⟨hne, hnil⟩ := bodyItems_forms body
  · rw [reached, bodyItems_group]
  · rw [hnil, reachedAll]
    unfold reached
    split
    case h_2 he =>
      cases he
      exact absurd rfl (hne _ _ _ _ _)
    all_goals first
      | rfl
      | (rename_i he; cases he)

theorem reached_implementation (attrs dflt u i gs of self w body : Tree) :
    reached (.node .implItem [attrs, dflt, u, i, gs, of, self, w, body]) =
      (bodyItems body).flatMap (reachedMethod (typeName self)) := by
  obtain ⟨d, o, inner, items, c, rfl⟩ | ⟨hne, hnil⟩ := bodyItems_forms body
  · rw [reached, bodyItems_group]
  · rw [hnil, List.flatMap_nil]
    unfold reached
    split
    case h_3 he =>
      cases he
      exact absurd rfl (hne _ _ _ _ _)
    all_goals first
      | rfl
      | (rename_i he; cases he)

theorem reached_trait (attrs vis u a t n gs colon bs w body : Tree) :
    reached (.node .traitItem [attrs, vis, u, a, t, n, gs, colon, bs, w, body]) =
      (bodyItems body).flatMap (reachedTraitFn n.text) := by
  obtain ⟨d, o, inner, items, c, rfl⟩ | ⟨hne, hnil⟩ := bodyItems_forms body
  · rw [reached, bodyItems_group]
  · rw [hnil, List.flatMap_nil]
    unfold reached
    split
    case h_4 he =>
      cases he
      exact absurd rfl (hne _ _ _ _ _)
    all_goals first
      | rfl
      | (rename_i he; cases he)

theorem itemUnmarked_of_no_fns {t : Tree} (ht : t.kind?.any holdsFns = false) : itemUnmarked imports t = true := by
  cases t with
  | node k cs => rw [itemUnmarked, Project.reached_other ht, List.all_nil]
  | _ => rfl

/-- Maps that keep shapes put no marker on a function and take none away. -/
theorem itemUnmarked_regular (h : Regular f) (t : Tree) : itemUnmarked imports (f t) = itemUnmarked imports t := by
  induction hn : sizeOf t using Nat.strongRecOn generalizing t with
  | ind n ih =>
    subst hn
    refine h.read_kinds_at holdsFns true (fun k hk => ?_) (fun t ht => itemUnmarked_of_no_fns ht) fun k cs ht hk => ?_
    · cases k <;> first | rfl | cases hk
    · subst ht
      have hbody : ∀ body ∈ cs, (bodyItems (f body)).all (itemUnmarked imports) = (bodyItems body).all (itemUnmarked imports) := by
        refine fun body hmem => all_bodyItems h fun item hitem => ih (sizeOf item) ?_ item rfl
        have := List.sizeOf_lt_of_mem hmem
        have := mem_bodyItems hitem
        simp
        omega
      by_cases hlength : cs.length = partsOfItem k
      · have hkinds : k = .fnItem ∨ k = .modItem ∨ k = .implItem ∨ k = .traitItem := by
          cases k <;> first | decide | cases hk
        obtain rfl | rfl | rfl | rfl := hkinds
        · match cs, hlength with
          | [attrs, vis, sig, body], _ => exact congrArg (· && true) (isUnmarked_ofParts h ..)
        · match cs, hlength with
          | [attrs, vis, u, m, n, body], _ =>
            simp only [List.map_cons, List.map_nil, itemUnmarked, reached_module, all_reachedAll]
            exact hbody body (by simp)
        · match cs, hlength with
          | [attrs, dflt, u, i, gs, of, self, w, body], _ =>
            simp only [List.map_cons, List.map_nil, itemUnmarked, reached_implementation, List.all_flatMap, all_reachedMethod]
            exact all_bodyItems h fun m _ => methodUnmarked_regular h m
        · match cs, hlength with
          | [attrs, vis, u, a, t, n, gs, colon, bs, w, body], _ =>
            simp only [List.map_cons, List.map_nil, itemUnmarked, reached_trait, List.all_flatMap, all_reachedTraitFn]
            exact all_bodyItems h fun m _ => traitFnUnmarked_regular h m
      · rw [itemUnmarked, itemUnmarked, reached_of_length hk hlength, reached_of_length hk (by rwa [List.length_map])]

/-- Whether no function that a pass meets in a file has a marker. -/
def fileUnmarked (imports : Imports) (t : Tree) : Bool := (reachedIn t).all (isUnmarked imports)

theorem reachedIn_file (attrs t : Tree) : reachedIn (.node .file [attrs, t]) = reachedAll (nodeItems t) := by
  unfold nodeItems
  split
  · rfl
  · rename_i hother
    rw [reachedAll]
    unfold reachedIn
    split
    · rename_i he
      cases he
      exact absurd rfl (hother _)
    · rfl

theorem fileUnmarked_regular (h : Regular f) (t : Tree) : fileUnmarked imports (f t) = fileUnmarked imports t := by
  refine h.read_kind .file true rfl (fun t ht => ?_) (fun cs => ?_) t
  · unfold fileUnmarked reachedIn
    split
    · exact absurd rfl ht
    · rfl
  · match cs with
    | [attrs, t] =>
      rw [List.map_cons, List.map_singleton, fileUnmarked, fileUnmarked, reachedIn_file, reachedIn_file, all_reachedAll,
        all_reachedAll]
      rcases nodeItems_regular h t with heq | heq
      · rw [heq]
      · rw [heq, List.all_map]
        exact congrArg _ (funext fun item => itemUnmarked_regular h item)
    | [] | [_] => rfl
    | _ :: _ :: _ :: _ => simp [fileUnmarked, reachedIn]

end CallProbe.Probe
