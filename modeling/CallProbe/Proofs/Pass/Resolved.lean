import CallProbe.Proofs.Pass.Parsed
import CallProbe.Proofs.Pass.Reached
import CallProbe.Project.Functions

/-! # Functions that are found and functions that are reached

Which functions a file has is decided twice: by a search through the whole file, which gives the names for a selection,
and by the pass that probes. The search finds every function with a body or a marker that the pass reaches, in the same
order, but it looks into expressions and types as well. The functions that it finds there are `strays`: no pass reaches
them. So the two agree exactly on files without strays. -/

namespace CallProbe.Project

open Source Probe Parse

variable {imports : Imports} {Q : Tree → Prop}

/-! ### Lists in one another -/

/-- The third list is made of the elements of the other two. Those of the first keep their order. -/
structure Interleaves {α : Type} (xs ys zs : List α) : Prop where
  sublist : xs.Sublist zs
  perm : zs.Perm (xs ++ ys)

theorem Interleaves.left {α : Type} (xs : List α) : Interleaves xs [] xs := ⟨.refl xs, by simp⟩

theorem Interleaves.right {α : Type} (ys : List α) : Interleaves [] ys ys := ⟨List.nil_sublist ys, .refl ys⟩

theorem Interleaves.append {α : Type} {xs xs' ys ys' zs zs' : List α} (h : Interleaves xs ys zs)
    (h' : Interleaves xs' ys' zs') : Interleaves (xs ++ xs') (ys ++ ys') (zs ++ zs') := by
  refine ⟨h.sublist.append h'.sublist, (h.perm.append h'.perm).trans ?_⟩
  rw [List.append_assoc, List.append_assoc]
  exact ((List.perm_append_comm_assoc ys xs' ys').append_left xs)

theorem Interleaves.eq_iff {α : Type} {xs ys zs : List α} (h : Interleaves xs ys zs) : zs = xs ↔ ys = [] := by
  constructor
  · rintro rfl
    have hlength := h.perm.length_eq
    rw [List.length_append] at hlength
    exact List.eq_nil_of_length_eq_zero (by omega)
  · rintro rfl
    have hlength := h.perm.length_eq
    rw [List.append_nil] at hlength
    exact (h.sublist.eq_of_length hlength.symm).symm

/-! ### Functions that are listed -/

/-- A function that a pass reaches, as a search finds it. -/
def foundAs (imports : Imports) (x : Reached) : Found :=
  ⟨x.name, x.function.attrs.any fun a => (imports.marker? a).isSome⟩

/-- Whether a function that a pass reaches has a body or a marker. -/
def isListed (imports : Imports) (x : Reached) : Bool := x.function.body.isSome || (foundAs imports x).marked

/-- The functions with a body or a marker among those that a pass reaches, as a search finds them. -/
def listed (imports : Imports) (xs : List Reached) : List Found := (xs.filter (isListed imports)).map (foundAs imports)

@[simp]
theorem listed_append (xs ys : List Reached) : listed imports (xs ++ ys) = listed imports xs ++ listed imports ys := by
  rw [listed, List.filter_append, List.map_append]
  rfl

theorem listed_singleton (x : Reached) :
    listed imports [x] = if isListed imports x then [foundAs imports x] else [] := by
  cases h : isListed imports x <;> simp [listed, h]

theorem listed_of_body {x : Reached} (h : x.function.body.isSome = true) : listed imports [x] = [foundAs imports x] := by
  rw [listed_singleton, isListed, h, Bool.true_or, if_pos rfl]

/-! ### Trees that a search goes through -/

theorem functionsInAll_eq (scope : Option String) (ts : List Tree) :
    functionsInAll imports scope ts = ts.flatMap (functionsIn imports scope) := by
  induction ts with
  | nil => rfl
  | cons t ts ih => rw [functionsInAll, ih, List.flatMap_cons]

theorem functionsIn_group (scope : Option String) (d : Delimiter) (o c : Pos) (content : List Tree) :
    functionsIn imports scope (.group d o content c) = content.flatMap (functionsIn imports scope) :=
  functionsInAll_eq scope content

theorem functionsIn_items (scope : Option String) (items : List Tree) :
    functionsIn imports scope (.node .items items) = functionsInAll imports scope items := rfl

theorem functionsIn_module (scope : Option String) (cs : List Tree) :
    functionsIn imports scope (.node .modItem cs) = cs.flatMap (functionsIn imports scope) := functionsInAll_eq scope cs

theorem functionsIn_file (scope : Option String) (cs : List Tree) :
    functionsIn imports scope (.node .file cs) = cs.flatMap (functionsIn imports scope) := functionsInAll_eq scope cs

theorem functionsIn_impl (scope : Option String) (attrs dflt u i gs of self w inner items : Tree) (d : Delimiter) (o c : Pos) :
    functionsIn imports scope (.node .implItem [attrs, dflt, u, i, gs, of, self, w, .group d o [inner, items] c]) =
      functionsInAll imports (some (typeName self)) [attrs, inner, gs, w, of, self] ++
        functionsIn imports (some (typeName self)) items := by
  rw [functionsInAll_eq]
  simp only [List.flatMap_cons, List.flatMap_nil, List.append_nil, ← List.append_assoc]
  rfl

theorem functionsIn_trait (scope : Option String) (attrs vis u a t n gs colon bounds w inner items : Tree) (d : Delimiter)
    (o c : Pos) :
    functionsIn imports scope (.node .traitItem [attrs, vis, u, a, t, n, gs, colon, bounds, w, .group d o [inner, items] c]) =
      functionsInAll imports (some n.text) [attrs, inner, gs, w, bounds] ++ functionsIn imports (some n.text) items := by
  rw [functionsInAll_eq]
  simp only [List.flatMap_cons, List.flatMap_nil, List.append_nil, ← List.append_assoc]
  rfl

/-! ### Strays -/

/-- The functions that a search finds in a member of an implementation, apart from the member itself. -/
def straysMethod (imports : Imports) (scope : String) : Tree → List Found
  | .node .methodItem [_, _, _, _, _] => []
  | t => functionsIn imports scope t

/-- The functions that a search finds in a member of a trait, apart from the member itself. -/
def straysTraitFn (imports : Imports) (scope : String) : Tree → List Found
  | .node .traitFn [_, _, _] => []
  | t => functionsIn imports scope t

mutual

/-- The functions that a search finds in an item and a pass does not reach. -/
def strays (imports : Imports) : Tree → List Found
  | .node .fnItem [_, _, _, _] => []
  | .node .modItem [attrs, vis, u, m, n, .group _ _ [inner, .node .items items] _] =>
    functionsInAll imports none [attrs, vis, u, m, n, inner] ++ straysAll imports items
  | .node .implItem [attrs, _, _, _, gs, of, self, w, .group _ _ [inner, .node .items members] _] =>
    functionsInAll imports (some (typeName self)) [attrs, inner, gs, w, of, self] ++
      members.flatMap (straysMethod imports (typeName self))
  | .node .traitItem [attrs, _, _, _, _, n, gs, _, bounds, w, .group _ _ [inner, .node .items members] _] =>
    functionsInAll imports (some n.text) [attrs, inner, gs, w, bounds] ++ members.flatMap (straysTraitFn imports n.text)
  | t => functionsIn imports none t

def straysAll (imports : Imports) : List Tree → List Found
  | [] => []
  | t :: ts => strays imports t ++ straysAll imports ts

end

/-- The functions that a search finds in a file and a pass over the file does not reach. -/
def straysIn (imports : Imports) : Tree → List Found
  | .node .file [attrs, .node .items items] => functionsIn imports none attrs ++ straysAll imports items
  | t => functionsIn imports none t

/-! ### Members -/

theorem body_of_bodyForm {attrs vis sig body : Tree} (h : BodyForm Q body) :
    (Function.ofParts attrs vis sig body).body.isSome = true := by
  obtain ⟨o, inner, ss, c, rfl, -⟩ := h
  rfl

/-- Members of an implementation or a trait, one after the other. -/
theorem interleaves_flatMap {scope : Option String} {met : Tree → List Reached} {rest : Tree → List Found} {ts : List Tree}
    (h : ∀ t ∈ ts, Interleaves (listed imports (met t)) (rest t) (functionsIn imports scope t)) :
    Interleaves (listed imports (ts.flatMap met)) (ts.flatMap rest) (functionsInAll imports scope ts) := by
  induction ts with
  | nil => exact .left []
  | cons t ts ih =>
    rw [List.flatMap_cons, List.flatMap_cons, functionsInAll, listed_append]
    exact (h t (by simp)).append (ih fun u hu => h u (by simp [hu]))

theorem interleaves_method {scope : String} {t : Tree} (h : MethodForm Q t) :
    Interleaves (listed imports (reachedMethod scope t)) (straysMethod imports scope t) (functionsIn imports scope t) := by
  cases h with
  | method hattrs hbody =>
    simp only [reachedMethod, straysMethod]
    rw [listed_of_body (body_of_bodyForm hbody)]
    exact .left _
  | @other k cs hk =>
    have hrest : straysMethod imports scope (.node k cs) = functionsIn imports scope (.node k cs) := by
      unfold straysMethod
      split
      · rename_i he
        cases he
        exact absurd rfl hk
      · rfl
    rw [reachedMethod_other fun _ _ _ _ _ he => hk (Tree.node.inj he).1, hrest]
    exact .right _

theorem interleaves_traitFn {scope : String} {t : Tree} (h : TraitFnForm Q t) :
    Interleaves (listed imports (reachedTraitFn scope t)) (straysTraitFn imports scope t) (functionsIn imports scope t) := by
  have hfn : ∀ attrs sig body, functionsIn imports scope (.node .traitFn [attrs, sig, body]) =
      listed imports (reachedTraitFn scope (.node .traitFn [attrs, sig, body])) := by
    intro attrs sig body
    simp only [reachedTraitFn]
    rw [listed_singleton]
    rfl
  cases h with
  | provided hattrs hbody =>
    rw [hfn]
    exact .left _
  | required hattrs =>
    rw [hfn]
    exact .left _
  | @other k cs hk =>
    have hrest : straysTraitFn imports scope (.node k cs) = functionsIn imports scope (.node k cs) := by
      unfold straysTraitFn
      split
      · rename_i he
        cases he
        exact absurd rfl hk
      · rfl
    rw [reachedTraitFn_other fun _ _ _ he => hk (Tree.node.inj he).1, hrest]
    exact .right _

/-! ### Items -/

theorem reached_other {k : Kind} {cs : List Tree} (h : holdsFns k = false) : reached (.node k cs) = [] := by
  unfold reached
  split
  all_goals first
    | rfl
    | (rename_i he; cases he; cases h)

theorem strays_other {k : Kind} {cs : List Tree} (h : holdsFns k = false) :
    strays imports (.node k cs) = functionsIn imports none (.node k cs) := by
  unfold strays
  split
  all_goals first
    | rfl
    | (rename_i he; cases he; cases h)

theorem interleaves_all {items : List Tree}
    (h : ∀ t ∈ items, Interleaves (listed imports (reached t)) (strays imports t) (functionsIn imports none t)) :
    Interleaves (listed imports (reachedAll items)) (straysAll imports items) (functionsInAll imports none items) := by
  induction items with
  | nil => exact .left []
  | cons t ts ih =>
    rw [reachedAll, straysAll, functionsInAll, listed_append]
    exact (h t (by simp)).append (ih fun u hu => h u (by simp [hu]))

theorem interleaves_item {t : Tree} (h : ItemForm Q t) :
    Interleaves (listed imports (reached t)) (strays imports t) (functionsIn imports none t) := by
  induction h with
  | free hattrs hbody =>
    simp only [reached, strays]
    rw [listed_of_body (body_of_bodyForm hbody)]
    exact .left _
  | @module attrs vis u m n inner d o c items _ ih =>
    have hparts : functionsIn imports none (.node .modItem [attrs, vis, u, m, n, .group d o [inner, .node .items items] c]) =
        functionsInAll imports none [attrs, vis, u, m, n, inner] ++ functionsInAll imports none items := by
      rw [functionsIn_module, functionsInAll_eq]
      simp only [List.flatMap_cons, List.flatMap_nil, functionsIn_group, functionsIn_items, List.append_nil, List.append_assoc]
    simp only [reached, strays]
    rw [hparts]
    exact (Interleaves.right _).append (interleaves_all ih)
  | elsewhere => exact .right _
  | @implementation attrs dflt u i gs of self w inner d o c members hmembers =>
    simp only [reached, strays]
    rw [functionsIn_impl, functionsIn_items]
    exact (Interleaves.right _).append (interleaves_flatMap fun m hm => interleaves_method (hmembers m hm))
  | @trait attrs vis u a t n gs colon bs w inner d o c members hmembers =>
    simp only [reached, strays]
    rw [functionsIn_trait, functionsIn_items]
    exact (Interleaves.right _).append (interleaves_flatMap fun m hm => interleaves_traitFn (hmembers m hm))
  | other hk =>
    rw [reached_other hk, strays_other hk]
    exact .right _

/-- What a search finds in a file that was read are the functions with a body or a marker that a pass reaches, and the
    strays. -/
theorem interleaves_file {ts : List TokenTree} {file : Tree} (h : Grammar.parseFile ts = .ok file) :
    Interleaves (listed imports (reachedIn file)) (straysIn imports file) (functionsIn imports none file) := by
  obtain ⟨attrs, items, rfl, hitems⟩ := parseFile_items (Q := fun _ => True) (fun _ _ _ _ _ => trivial)
    (fun _ _ _ _ _ => trivial) h
  have hparts : functionsIn imports none (.node .file [attrs, .node .items items]) =
      functionsIn imports none attrs ++ functionsInAll imports none items := by
    rw [functionsIn_file, List.flatMap_cons, List.flatMap_singleton, functionsIn_items]
  simp only [reachedIn, straysIn]
  rw [hparts]
  exact (Interleaves.right _).append (interleaves_all fun t ht => interleaves_item (hitems t ht))

/-! ### What becomes of a function -/

/-- What a pass makes of a function: a marked one is probed once for each of its markers, another one that was selected
    once, as the plan says, and all others are left alone. -/
inductive ProbedAs (r : Request) (x : Reached) : List Probed → Prop where
  | marked {done : List Probed} (hmarked : (foundAs r.imports x).marked = true)
      (hdone : Ask.applyAll x.name x.function (r.markers x.function.attrs) = .ok done)
      (hlength : done.length = (r.markers x.function.attrs).length) : ProbedAs r x done
  | selected {plan : Plan} {p : Probed} (hmarked : (foundAs r.imports x).marked = false) (htarget : x.name ∈ r.targets)
      (hplan : r.plan = some plan) (hprobe : probe x.function x.name plan none = .ok p) : ProbedAs r x [p]
  | left (hmarked : (foundAs r.imports x).marked = false) (hnone : x.name ∉ r.targets ∨ r.plan = none) : ProbedAs r x []

theorem markers_eq_nil {r : Request} {x : Reached} :
    r.markers x.function.attrs = [] ↔ (foundAs r.imports x).marked = false := by
  simp [Request.markers, foundAs]

theorem applyAll_length {name : String} {f : Function} {asks : List Ask} {done : List Probed}
    (h : Ask.applyAll name f asks = .ok done) : done.length = asks.length := by
  induction asks generalizing f done with
  | nil =>
    cases h
    rfl
  | cons a asks ih =>
    rw [Ask.applyAll_cons] at h
    cases ha : a.apply name f with
    | error e =>
      rw [ha] at h
      cases h
    | ok p =>
      rw [ha, Except.bind] at h
      cases hmore : Ask.applyAll name p.item asks with
      | error e =>
        rw [hmore] at h
        cases h
      | ok more =>
        rw [hmore] at h
        cases h
        rw [List.length_cons, List.length_cons, ih hmore]

theorem probedAs_of_probes {r : Request} {x : Reached} {done : List Probed} (h : r.probes x = .ok done) :
    ProbedAs r x done := by
  unfold Request.probes Request.asks at h
  split at h
  · rename_i hmarkers
    have hmarked := markers_eq_nil.mp hmarkers
    split at h
    · rename_i htarget
      cases hplan : r.plan with
      | none =>
        rw [hplan] at h
        cases h
        exact .left hmarked (.inr hplan)
      | some plan =>
        rw [hplan] at h
        change Ask.applyAll x.name x.function [.selected plan] = .ok done at h
        rw [Ask.applyAll_singleton, Ask.apply] at h
        cases hprobe : probe x.function x.name plan none with
        | error e =>
          rw [hprobe] at h
          cases h
        | ok p =>
          rw [hprobe] at h
          cases h
          exact .selected hmarked (by simpa using htarget) hplan hprobe
    · rename_i htarget
      cases h
      exact .left hmarked (.inl (by simpa using htarget))
  · rename_i hmarkers
    have hmarked : (foundAs r.imports x).marked = true :=
      Bool.not_eq_false _ ▸ fun hunmarked => hmarkers (markers_eq_nil.mpr hunmarked)
    exact .marked hmarked h (applyAll_length h)

/-- A function without a body and without a marker is left alone where no probe fails. -/
theorem ProbedAs.eq_nil {r : Request} {x : Reached} {done : List Probed} (h : ProbedAs r x done)
    (hlisted : isListed r.imports x = false) : done = [] := by
  obtain ⟨hbody, hunmarked⟩ := Bool.or_eq_false_iff.mp hlisted
  cases h with
  | marked hmarked =>
    rw [hunmarked] at hmarked
    cases hmarked
  | selected hmarked htarget hplan hprobe =>
    unfold probe at hprobe
    rw [Option.isSome_eq_false_iff.mp hbody |> Option.isNone_iff_eq_none.mp] at hprobe
    cases hprobe
  | left => rfl

theorem forall₂_listed {r : Request} {xs : List Reached} {dones : List (List Probed)}
    (h : List.Forall₂ (fun x done => r.probes x = .ok done) xs dones) :
    ∃ dones', List.Forall₂ (ProbedAs r) (xs.filter (isListed r.imports)) dones' ∧ dones'.flatten = dones.flatten := by
  induction h with
  | nil => exact ⟨[], .nil, rfl⟩
  | @cons x done xs dones hx _ ih =>
    obtain ⟨dones', hdones', hflatten⟩ := ih
    have hprobed := probedAs_of_probes hx
    cases hlisted : isListed r.imports x with
    | true =>
      rw [List.filter_cons_of_pos hlisted]
      exact ⟨done :: dones', .cons hprobed hdones', by rw [List.flatten_cons, List.flatten_cons, hflatten]⟩
    | false =>
      rw [List.filter_cons_of_neg (by simp [hlisted])]
      exact ⟨dones', hdones', by rw [hprobed.eq_nil hlisted, List.flatten_cons, hflatten]; rfl⟩

/-! ### Searches and passes -/

/-- The file that was searched, and the functions with a body or a marker that a pass over it reaches. -/
theorem functionsOf_ok {path source : String} {found : List Found} (h : functionsOf path source = .ok found) :
    ∃ file, fileOfText path (dropInterpreter source) = .ok file ∧
      Interleaves (listed (.ofFile file) (reachedIn file)) (straysIn (.ofFile file) file) found := by
  unfold functionsOf at h
  cases hfile : fileOfText path (dropInterpreter source) with
  | error e =>
    rw [hfile] at h
    cases h
  | ok file =>
    rw [hfile] at h
    cases h
    obtain ⟨ts, -, hts⟩ := fileOfText_ok hfile
    exact ⟨file, rfl, interleaves_file hts⟩

/-- A search and a pass over the same file. The search finds the functions with a body or a marker that the pass reaches,
    in their order, under their names and with the same marks, and the strays, so that it finds nothing else exactly if the
    file has no strays. What a pass without failures has probed are those functions: the marked ones as their markers say,
    the others if they were selected, and nothing else. -/
theorem functionsOf_reached {path source : String} {found : List Found} (h : functionsOf path source = .ok found) :
    ∃ file, fileOfText path (dropInterpreter source) = .ok file ∧
      (listed (.ofFile file) (reachedIn file)).Sublist found ∧
      found.Perm (listed (.ofFile file) (reachedIn file) ++ straysIn (.ofFile file) file) ∧
      (found = listed (.ofFile file) (reachedIn file) ↔ straysIn (.ofFile file) file = []) ∧
      ∀ targets plan edited progress, instrumentTree targets plan file = .ok (edited, progress) →
        ∃ dones, List.Forall₂ (ProbedAs (requestFor file targets plan))
            ((reachedIn file).filter (isListed (.ofFile file))) dones ∧
          progress.probed = dones.flatten := by
  obtain ⟨file, hfile, hsearch⟩ := functionsOf_ok h
  refine ⟨file, hfile, hsearch.sublist, hsearch.perm, hsearch.eq_iff, fun targets plan edited progress hpass => ?_⟩
  -- A function that is not listed has neither a body nor a marker, so its probes are none.
  rw [instrumentTree_performs] at hpass
  cases hprobes : (reachedIn file).mapM (requestFor file targets plan).probes with
  | error e =>
    rw [hprobes] at hpass
    cases hpass
  | ok dones =>
    rw [hprobes] at hpass
    cases hpass
    obtain ⟨dones', hdones', hflatten⟩ := forall₂_listed (mapM_eq_ok.mp hprobes)
    exact ⟨dones', hdones', hflatten.symm⟩

/-- In a trait with a provided function, next to a marked one, both are found and nothing else is. -/
theorem functionsOf_reached_trait : ∃ file,
    fileOfText "lib.rs" (dropInterpreter "trait T { fn a(); fn b() {} } #[wrap_calls(wrapper = w)] fn f() {}") = .ok file ∧
      [⟨"T::b", false⟩, ⟨"f", true⟩] = listed (.ofFile file) (reachedIn file) := by
  obtain ⟨file, hfile, htest⟩ := @ok_of_any _ _
    (fileOfText "lib.rs" (dropInterpreter "trait T { fn a(); fn b() {} } #[wrap_calls(wrapper = w)] fn f() {}"))
    (fun file => functionsIn (.ofFile file) none file == [⟨"T::b", false⟩, ⟨"f", true⟩] && straysIn (.ofFile file) file == [])
    (by decide +kernel)
  obtain ⟨hfound, hstrays⟩ := Bool.and_eq_true_iff.mp htest
  have hsearch : functionsOf "lib.rs" "trait T { fn a(); fn b() {} } #[wrap_calls(wrapper = w)] fn f() {}" =
      .ok [⟨"T::b", false⟩, ⟨"f", true⟩] := by
    rw [functionsOf, hfile, ← eq_of_beq hfound]
    rfl
  obtain ⟨file', hfile', -, -, hiff, -⟩ := functionsOf_reached hsearch
  obtain rfl : file = file' := Except.ok.inj (hfile.symm.trans hfile')
  exact ⟨file, hfile, hiff.mpr (by simpa using hstrays)⟩

/-- A function in the block of a constant is found, and no pass reaches it. -/
theorem functionsOf_constant : functionsOf "lib.rs" "const _: () = { fn hidden() {} };" = .ok [⟨"hidden", false⟩] ∧
    ∃ file, fileOfText "lib.rs" "const _: () = { fn hidden() {} };" = .ok file ∧ (reachedIn file).isEmpty = true := by
  obtain ⟨file, hfile, htest⟩ := @ok_of_any _ _ (fileOfText "lib.rs" "const _: () = { fn hidden() {} };")
    (fun file => functionsIn (.ofFile file) none file == [⟨"hidden", false⟩] && (reachedIn file).isEmpty) (by decide +kernel)
  obtain ⟨hfound, hempty⟩ := Bool.and_eq_true_iff.mp htest
  have hkept : dropInterpreter "const _: () = { fn hidden() {} };" = "const _: () = { fn hidden() {} };" := by decide +kernel
  refine ⟨?_, file, hfile, hempty⟩
  rw [functionsOf, hkept, hfile, ← eq_of_beq hfound]
  rfl

end CallProbe.Project
