import CallProbe.Probe.Instrument
import Mathlib.Data.List.Forall2

/-! # What a pass over a file reaches

A pass is two things at once: it probes functions, one after the other, and it puts what they became in their places.
`Reached` lists the functions in the order in which they are met, and `Request.edit` is what a file becomes if no probe
fails. `instrumentTree_performs` takes a pass apart into the two: it fails as the first probe that fails, and otherwise
the file is the edited one. -/

namespace CallProbe.Probe

open Source

/-- A function that a pass meets, with the name that it is known by. -/
structure Reached where
  name : String
  function : Function

/-! ### Functions of a file -/

/-- The function that a member of an implementation is. -/
def reachedMethod (scope : String) : Tree → List Reached
  | .node .methodItem [attrs, vis, _, sig, body] =>
    let f := Function.ofParts attrs vis sig body
    [⟨qualified scope f.name, f⟩]
  | _ => []

/-- The function that a member of a trait is. -/
def reachedTraitFn (scope : String) : Tree → List Reached
  | .node .traitFn [attrs, sig, body] =>
    let f := Function.ofParts attrs .absent sig body
    [⟨qualified scope f.name, f⟩]
  | _ => []

mutual

/-- The functions that a pass meets in an item. -/
def reached : Tree → List Reached
  | .node .fnItem [attrs, vis, sig, body] =>
    let f := Function.ofParts attrs vis sig body
    [⟨f.name, f⟩]
  | .node .modItem [_, _, _, _, _, .group _ _ [_, .node .items items] _] => reachedAll items
  | .node .implItem [_, _, _, _, _, _, self, _, .group _ _ [_, .node .items members] _] =>
    members.flatMap (reachedMethod (typeName self))
  | .node .traitItem [_, _, _, _, _, n, _, _, _, _, .group _ _ [_, .node .items members] _] =>
    members.flatMap (reachedTraitFn n.text)
  | _ => []

def reachedAll : List Tree → List Reached
  | [] => []
  | t :: ts => reached t ++ reachedAll ts

end

/-- The functions that a pass over a file meets. -/
def reachedIn : Tree → List Reached
  | .node .file [_, .node .items items] => reachedAll items
  | _ => []

/-! ### Edits -/

namespace Request

variable (r : Request)

/-- The probes of a function, one for each ask. -/
def probes (x : Reached) : Except Failure (List Probed) := Ask.applyAll x.name x.function (r.asks x.name x.function)

/-- What a function becomes, with the constants to put after it, if it is asked for. -/
def change? (x : Reached) : Option (Function × List Tree) :=
  match r.probes x with
  | .ok (p :: ps) => some (((p :: ps).getLast?.map (·.item)).getD x.function, (p :: ps).filterMap (·.details))
  | _ => none

/-- A member of an implementation after the pass. -/
def editMethod (scope : String) (ofTrait : Bool) : Tree → List Tree
  | .node .methodItem [attrs, vis, dflt, sig, body] =>
    let f := Function.ofParts attrs vis sig body
    match r.change? ⟨qualified scope f.name, f⟩ with
    | none => [.node .methodItem [attrs, vis, dflt, sig, body]]
    | some (g, consts) =>
      .node .methodItem [.node .attrs g.attrs, vis, dflt, g.sig, g.body.getD body] ::
        if ofTrait then [] else consts.map memberConst
  | t => [t]

/-- A member of a trait after the pass. -/
def editTraitFn (scope : String) : Tree → Tree
  | .node .traitFn [attrs, sig, body] =>
    let f := Function.ofParts attrs .absent sig body
    match r.change? ⟨qualified scope f.name, f⟩ with
    | none => .node .traitFn [attrs, sig, body]
    | some (g, _) => .node .traitFn [.node .attrs g.attrs, g.sig, g.body.getD body]
  | t => t

mutual

/-- An item after the pass. -/
def edit : Tree → List Tree
  | .node .fnItem [attrs, vis, sig, body] =>
    let f := Function.ofParts attrs vis sig body
    match r.change? ⟨f.name, f⟩ with
    | none => [.node .fnItem [attrs, vis, sig, body]]
    | some (g, consts) => .node .fnItem [.node .attrs g.attrs, vis, g.sig, g.body.getD body] :: consts
  | .node .modItem [attrs, vis, u, m, n, .group d o [inner, .node .items items] c] =>
    [.node .modItem [attrs, vis, u, m, n, .group d o [inner, .node .items (editAll items)] c]]
  | .node .implItem [attrs, dflt, u, i, gs, of, self, w, .group d o [inner, .node .items members] c] =>
    [.node .implItem [attrs, dflt, u, i, gs, of, self, w,
      .group d o [inner, .node .items (members.flatMap (r.editMethod (typeName self) of.isPresent))] c]]
  | .node .traitItem [attrs, vis, u, a, t, n, gs, colon, bs, w, .group d o [inner, .node .items members] c] =>
    [.node .traitItem [attrs, vis, u, a, t, n, gs, colon, bs, w,
      .group d o [inner, .node .items (members.map (r.editTraitFn n.text))] c]]
  | t => [t]

def editAll : List Tree → List Tree
  | [] => []
  | t :: ts => edit t ++ editAll ts

end

/-- A file after the pass. -/
def editFile : Tree → Tree
  | .node .file [attrs, .node .items items] => .node .file [attrs, .node .items (r.editAll items)]
  | t => t

/-! ### Constants without a place -/

/-- The constants that were asked for with a function and have no place there. -/
def skippedAt (place : ClosedPlace) (x : Reached) : List Skipped :=
  ((r.change? x).map fun (_, consts) => consts.map (⟨constName ·, place⟩)).getD []

def skipsMethod (scope : String) (ofTrait : Bool) (t : Tree) : List Skipped :=
  if ofTrait then (reachedMethod scope t).flatMap (r.skippedAt .traitImpl) else []

def skipsTraitFn (scope : String) (t : Tree) : List Skipped := (reachedTraitFn scope t).flatMap (r.skippedAt .traitBody)

mutual

/-- The constants that were asked for in an item and have no place. -/
def skips : Tree → List Skipped
  | .node .modItem [_, _, _, _, _, .group _ _ [_, .node .items items] _] => skipsAll items
  | .node .implItem [_, _, _, _, _, of, self, _, .group _ _ [_, .node .items members] _] =>
    members.flatMap (r.skipsMethod (typeName self) of.isPresent)
  | .node .traitItem [_, _, _, _, _, n, _, _, _, _, .group _ _ [_, .node .items members] _] =>
    members.flatMap (r.skipsTraitFn n.text)
  | _ => []

def skipsAll : List Tree → List Skipped
  | [] => []
  | t :: ts => skips t ++ skipsAll ts

end

end Request

/-! ### Members that are no functions -/

section Others

variable {r : Request} {scope : String} {t : Tree}

section

variable (h : ∀ attrs vis dflt sig body, t ≠ .node .methodItem [attrs, vis, dflt, sig, body])

include h

theorem reachedMethod_other : reachedMethod scope t = [] := by
  unfold reachedMethod
  split
  · exact absurd rfl (h _ _ _ _ _)
  · rfl

theorem editMethod_other {ofTrait : Bool} : r.editMethod scope ofTrait t = [t] := by
  unfold Request.editMethod
  split
  · exact absurd rfl (h _ _ _ _ _)
  · rfl

end

section

variable (h : ∀ attrs sig body, t ≠ .node .traitFn [attrs, sig, body])

include h

theorem reachedTraitFn_other : reachedTraitFn scope t = [] := by
  unfold reachedTraitFn
  split
  · exact absurd rfl (h _ _ _)
  · rfl

theorem editTraitFn_other : r.editTraitFn scope t = t := by
  unfold Request.editTraitFn
  split
  · exact absurd rfl (h _ _ _)
  · rfl

end

end Others

/-! ### A pass and its probes -/

variable {r : Request} {α β : Type}

/-- A part of a pass that probes functions, one after the other: it fails as the first probe that fails, and otherwise
    gives a value, adds what was probed and notes constants that were skipped. -/
def Performs (r : Request) (xs : List Reached) (skipped : List Skipped) (a : α) (run : Pass α) : Prop :=
  ∀ p : Progress, run.run p = (xs.mapM r.probes).map fun done =>
    (a, { probed := p.probed ++ done.flatten, skipped := p.skipped ++ skipped })

theorem Performs.pure (a : α) : Performs r [] [] a (pure a : Pass α) := by
  intro p
  change Except.ok (a, p) = Except.ok (a, { probed := p.probed ++ [], skipped := p.skipped ++ [] })
  rw [List.append_nil, List.append_nil]

theorem Performs.bind {xs ys : List Reached} {s t : List Skipped} {a : α} {b : β} {run : Pass α} {next : α → Pass β}
    (hrun : Performs r xs s a run) (hnext : Performs r ys t b (next a)) :
    Performs r (xs ++ ys) (s ++ t) b (run >>= next) := by
  intro p
  rw [StateT.run_bind, hrun p, List.mapM_append]
  cases xs.mapM r.probes with
  | error e => rfl
  | ok done =>
    change (next a).run _ = Except.map _ (Except.bind (ys.mapM r.probes) fun more => _)
    rw [hnext]
    cases ys.mapM r.probes with
    | error e => rfl
    | ok more => simp [Except.map, Except.bind, Pure.pure, Except.pure]

/-- Something is done with the value, and nothing is probed. -/
theorem Performs.map {xs : List Reached} {s : List Skipped} {a : α} {run : Pass α} (f : α → β)
    (hrun : Performs r xs s a run) : Performs r xs s (f a) (run >>= fun a => Pure.pure (f a)) := by
  have h : Performs r (xs ++ []) (s ++ []) (f a) (run >>= fun a => Pure.pure (f a)) := hrun.bind (.pure (f a))
  rwa [List.append_nil, List.append_nil] at h

theorem performs_skip (place : ClosedPlace) (consts : List Tree) :
    Performs r [] (consts.map (⟨constName ·, place⟩)) () (skip place consts) := by
  intro p
  change Except.ok ((), { p with skipped := p.skipped ++ _ }) =
    Except.ok ((), { probed := p.probed ++ [], skipped := p.skipped ++ _ })
  rw [List.append_nil]

theorem performs_process (name : String) (f : Function) :
    Performs r [⟨name, f⟩] [] (r.change? ⟨name, f⟩) (r.process name f) := by
  intro p
  rw [List.mapM_cons, List.mapM_nil, Request.process, Request.change?, Request.probes]
  cases Ask.applyAll name f (r.asks name f) with
  | error e => rfl
  | ok done =>
    cases done with
    | nil =>
      change Except.ok (none, p) = Except.ok (none, { probed := p.probed ++ [], skipped := p.skipped ++ [] })
      rw [List.append_nil, List.append_nil]
    | cons first more =>
      change Except.ok (_, { p with probed := p.probed ++ (first :: more) }) =
        Except.ok (_, { probed := p.probed ++ ((first :: more) ++ []), skipped := p.skipped ++ [] })
      rw [List.append_nil, List.append_nil]

theorem Performs.mapM {f : Tree → Pass β} {value : Tree → β} {met : Tree → List Reached} {skips : Tree → List Skipped}
    (ts : List Tree) (h : ∀ t ∈ ts, Performs r (met t) (skips t) (value t) (f t)) :
    Performs r (ts.flatMap met) (ts.flatMap skips) (ts.map value) (ts.mapM f) := by
  induction ts with
  | nil => exact .pure []
  | cons t ts ih =>
    rw [List.mapM_cons]
    exact (h t (by simp)).bind ((ih fun u hu => h u (by simp [hu])).map (value t :: ·))

/-! ### Items -/

/-- A value that is given after a probe, and the constants noted with it, may depend on what the probe gave. -/
theorem Performs.process {name : String} {f : Function} {s : List Skipped} {b : β}
    {next : Option (Function × List Tree) → Pass β} (h : Performs r [] s b (next (r.change? ⟨name, f⟩))) :
    Performs r [⟨name, f⟩] s b (r.process name f >>= next) :=
  (performs_process name f).bind h

theorem performs_implMember (scope : String) (ofTrait : Bool) (t : Tree) :
    Performs r (reachedMethod scope t) (r.skipsMethod scope ofTrait t) (r.editMethod scope ofTrait t)
      (r.implMember scope ofTrait t) := by
  unfold Request.implMember
  split
  · rename_i attrs vis dflt sig body
    simp only [reachedMethod, Request.editMethod, Request.skipsMethod, List.flatMap_singleton, Request.skippedAt]
    refine .process ?_
    cases r.change? ⟨qualified scope (Function.ofParts attrs vis sig body).name, Function.ofParts attrs vis sig body⟩ with
    | none => cases ofTrait <;> exact .pure _
    | some changed =>
      obtain ⟨g, consts⟩ := changed
      cases ofTrait with
      | false => exact .pure _
      | true => exact (performs_skip .traitImpl consts).map fun _ => _
  · rename_i hother
    rw [Request.skipsMethod, reachedMethod_other hother, editMethod_other hother]
    cases ofTrait <;> exact .pure _

theorem performs_traitMember (scope : String) (t : Tree) :
    Performs r (reachedTraitFn scope t) (r.skipsTraitFn scope t) (r.editTraitFn scope t) (r.traitMember scope t) := by
  unfold Request.traitMember
  split
  · rename_i attrs sig body
    simp only [reachedTraitFn, Request.editTraitFn, Request.skipsTraitFn, List.flatMap_singleton, Request.skippedAt]
    refine .process ?_
    cases r.change? ⟨qualified scope (Function.ofParts attrs .absent sig body).name,
        Function.ofParts attrs .absent sig body⟩ with
    | none => exact .pure _
    | some changed => exact (performs_skip .traitBody changed.2).map fun _ => _
  · rename_i hother
    rw [Request.skipsTraitFn, reachedTraitFn_other hother, editTraitFn_other hother]
    exact .pure _

mutual

theorem performs_item (t : Tree) : Performs r (reached t) (r.skips t) (r.edit t) (r.item t) := by
  unfold Request.item
  split
  · rename_i attrs vis sig body
    simp only [reached, Request.edit, Request.skips]
    refine .process ?_
    cases r.change? ⟨(Function.ofParts attrs vis sig body).name, Function.ofParts attrs vis sig body⟩ with
    | none => exact .pure _
    | some changed => exact .pure _
  · simp only [reached, Request.edit, Request.skips]
    exact (performs_items _).map fun items => _
  · simp only [reached, Request.edit, Request.skips]
    rw [List.flatMap_def (f := r.editMethod _ _)]
    exact (Performs.mapM _ fun m _ => performs_implMember _ _ m).map fun members => _
  · simp only [reached, Request.edit, Request.skips]
    exact (Performs.mapM _ fun m _ => performs_traitMember _ m).map fun members => _
  · -- All other items are kept as they are, and nothing in them is reached.
    rename_i hfn hmod himpl htrait
    have hmet : reached t = [] := by
      unfold reached
      split
      · exact absurd rfl (hfn _ _ _ _)
      · exact absurd rfl (hmod _ _ _ _ _ _ _ _ _ _)
      · exact absurd rfl (himpl _ _ _ _ _ _ _ _ _ _ _ _ _)
      · exact absurd rfl (htrait _ _ _ _ _ _ _ _ _ _ _ _ _ _ _)
      · rfl
    have hskips : r.skips t = [] := by
      unfold Request.skips
      split
      · exact absurd rfl (hmod _ _ _ _ _ _ _ _ _ _)
      · exact absurd rfl (himpl _ _ _ _ _ _ _ _ _ _ _ _ _)
      · exact absurd rfl (htrait _ _ _ _ _ _ _ _ _ _ _ _ _ _ _)
      · rfl
    have hedit : r.edit t = [t] := by
      unfold Request.edit
      split
      · exact absurd rfl (hfn _ _ _ _)
      · exact absurd rfl (hmod _ _ _ _ _ _ _ _ _ _)
      · exact absurd rfl (himpl _ _ _ _ _ _ _ _ _ _ _ _ _)
      · exact absurd rfl (htrait _ _ _ _ _ _ _ _ _ _ _ _ _ _ _)
      · rfl
    rw [hmet, hskips, hedit]
    exact .pure [t]

theorem performs_items (ts : List Tree) : Performs r (reachedAll ts) (r.skipsAll ts) (r.editAll ts) (r.items ts) := by
  cases ts with
  | nil =>
    simp only [reachedAll, Request.skipsAll, Request.editAll, Request.items]
    exact .pure []
  | cons t ts =>
    simp only [reachedAll, Request.skipsAll, Request.editAll, Request.items]
    exact (performs_item t).bind ((performs_items ts).map fun more => _)

end

/-! ### Files -/

/-- What decides about the functions of a file in a pass over it. -/
def requestFor (file : Tree) (targets : List String) (plan : Option Plan) : Request := ⟨Imports.ofFile file, targets, plan⟩

/-- The constants that were asked for in a file and have no place. -/
def Request.skipsIn (r : Request) : Tree → List Skipped
  | .node .file [_, .node .items items] => r.skipsAll items
  | _ => []

/-- A pass over a file fails as the first probe that fails, and otherwise gives the edited file. -/
theorem instrumentTree_performs (targets : List String) (plan : Option Plan) (file : Tree) :
    instrumentTree targets plan file = ((reachedIn file).mapM (requestFor file targets plan).probes).map fun done =>
      ((requestFor file targets plan).editFile file,
        { probed := done.flatten, skipped := (requestFor file targets plan).skipsIn file }) := by
  unfold instrumentTree
  split
  · rename_i attrs items
    change (Request.items (requestFor _ targets plan) items).run {} >>= _ = _
    rw [performs_items items {}]
    simp only [reachedIn, Request.editFile, Request.skipsIn]
    cases (reachedAll items).mapM (requestFor (.node .file [attrs, .node .items items]) targets plan).probes with
    | error e => rfl
    | ok done => rfl
  · rename_i hother
    have hmet : reachedIn file = [] := by
      unfold reachedIn
      split
      · exact absurd rfl (hother _ _)
      · rfl
    have hedit : (requestFor file targets plan).editFile file = file := by
      unfold Request.editFile
      split
      · exact absurd rfl (hother _ _)
      · rfl
    have hskips : (requestFor file targets plan).skipsIn file = [] := by
      unfold Request.skipsIn
      split
      · exact absurd rfl (hother _ _)
      · rfl
    rw [hmet, hedit, hskips]
    rfl

/-! ### Probes one after the other -/

variable {ε : Type}

theorem ok_of_toOption {e : Except ε α} {a : α} (h : e.toOption = some a) : e = .ok a := by
  cases e with
  | error => cases h
  | ok b => rw [Option.some.inj h]

theorem ok_of_any {e : Except ε α} {test : α → Bool} (h : e.toOption.any test = true) : ∃ a, e = .ok a ∧ test a = true := by
  cases e with
  | error => cases h
  | ok a => exact ⟨a, rfl, h⟩

/-- Whether a result is the given error. -/
def failsWith [DecidableEq ε] (e : ε) : Except ε α → Bool
  | .error e' => e' = e
  | .ok _ => false

theorem error_of_failsWith [DecidableEq ε] {e : ε} {r : Except ε α} (h : failsWith e r = true) : r = .error e := by
  cases r with
  | error e' => rw [of_decide_eq_true h]
  | ok a => cases h

theorem isOk_iff {e : Except ε α} : e.isOk = true ↔ ∃ a, e = .ok a := by
  cases e with
  | error => exact ⟨fun h => (by cases h), fun ⟨_, h⟩ => (by cases h)⟩
  | ok a => exact ⟨fun _ => ⟨a, rfl⟩, fun _ => rfl⟩

theorem Ask.apply_marked {m : Marker} {attr : Tree} {plan : Plan} (h : Plan.ofAttr m attr = .ok plan) (name : String)
    (f : Function) : (Ask.marked m attr).apply name f = probe f name plan (some attr) := by
  rw [Ask.apply, h]
  rfl

theorem Ask.applyAll_cons (name : String) (f : Function) (a : Ask) (as : List Ask) : Ask.applyAll name f (a :: as) =
    (a.apply name f).bind fun p => (Ask.applyAll name p.item as).map (p :: ·) := by
  rw [Ask.applyAll]
  cases a.apply name f with
  | error e => rfl
  | ok p =>
    change (Ask.applyAll name p.item as).bind _ = Except.map _ _
    cases Ask.applyAll name p.item as <;> rfl

theorem Ask.applyAll_singleton (name : String) (f : Function) (a : Ask) :
    Ask.applyAll name f [a] = (a.apply name f).map ([·]) := by
  rw [Ask.applyAll_cons]
  cases a.apply name f <;> rfl

theorem mapM_eq_ok {f : α → Except ε β} {xs : List α} {ys : List β} :
    xs.mapM f = .ok ys ↔ List.Forall₂ (fun x y => f x = .ok y) xs ys := by
  induction xs generalizing ys with
  | nil => cases ys <;> simp [Pure.pure, Except.pure]
  | cons x xs ih =>
    rw [List.mapM_cons, List.forall₂_cons_left_iff]
    cases hx : f x with
    | error e => simp [Bind.bind, Except.bind]
    | ok y =>
      cases hxs : xs.mapM f with
      | error e =>
        have hnone : ∀ zs, ¬List.Forall₂ (fun x y => f x = .ok y) xs zs := fun zs hzs => by
          rw [ih.mpr hzs] at hxs
          cases hxs
        simp [Bind.bind, Except.bind, hnone]
      | ok zs =>
        have hzs := ih.mp hxs
        constructor
        · rintro h
          cases h
          exact ⟨y, zs, rfl, hzs, rfl⟩
        · rintro ⟨y', zs', hy, hzs', rfl⟩
          cases hy
          rw [ih.mpr hzs'] at hxs
          cases hxs
          rfl

theorem mapM_defined {f : α → Except ε β} {xs : List α} {ys : List β} (h : xs.mapM f = .ok ys) :
    ∀ x ∈ xs, ∃ y, f x = .ok y := by
  have hall := mapM_eq_ok.mp h
  clear h
  induction hall with
  | nil => simp
  | cons hx _ ih => exact List.forall_mem_cons.mpr ⟨⟨_, hx⟩, ih⟩

theorem mapM_origin {f : α → Except ε β} {xs : List α} {ys : List β} (h : xs.mapM f = .ok ys) :
    ∀ y ∈ ys, ∃ x ∈ xs, f x = .ok y := by
  have hall := mapM_eq_ok.mp h
  clear h
  induction hall with
  | nil => simp
  | cons hx _ ih =>
    refine List.forall_mem_cons.mpr ⟨⟨_, List.mem_cons_self, hx⟩, fun y hy => ?_⟩
    obtain ⟨z, hz, hzy⟩ := ih y hy
    exact ⟨z, List.mem_cons_of_mem _ hz, hzy⟩

theorem mapM_eq_error {f : α → Except ε β} {xs : List α} {e : ε} (h : xs.mapM f = .error e) :
    ∃ before x after, xs = before ++ x :: after ∧ f x = .error e ∧ ∃ ys, before.mapM f = .ok ys := by
  induction xs with
  | nil => cases h
  | cons x xs ih =>
    rw [List.mapM_cons] at h
    cases hx : f x with
    | error e' =>
      rw [hx] at h
      cases h
      exact ⟨[], x, xs, rfl, hx, [], rfl⟩
    | ok y =>
      cases hxs : xs.mapM f with
      | ok ys =>
        rw [hx, hxs] at h
        cases h
      | error e' =>
        rw [hx, hxs] at h
        cases h
        obtain ⟨before, z, after, rfl, hz, ys, hys⟩ := ih hxs
        refine ⟨x :: before, z, after, rfl, hz, y :: ys, ?_⟩
        rw [List.mapM_cons, hx, hys]
        rfl

/-! ### Texts of files -/

theorem instrument_eq {path source : String} {file : Tree} (h : fileOfText path source = .ok file) (targets : List String)
    (plan : Option Plan) : instrument path source targets plan = (instrumentTree targets plan file).bind fun r =>
      (textOfFile r.1).map fun text => { source := header r.2.probed ++ text, probed := r.2.probed, skipped := r.2.skipped } := by
  unfold instrument
  rw [h]
  change (instrumentTree targets plan file).bind _ = _
  cases instrumentTree targets plan file with
  | error e => rfl
  | ok r =>
    change Except.bind (textOfFile r.1) _ = Except.map _ (textOfFile r.1)
    cases textOfFile r.1 <;> rfl

theorem instrument_isOk {path source : String} {file : Tree} {targets : List String} {plan : Option Plan}
    (h : fileOfText path source = .ok file)
    (hpass : ((instrumentTree targets plan file).toOption.any fun r => (textOfFile r.1).isOk) = true) :
    (instrument path source targets plan).isOk = true := by
  obtain ⟨r, hr, hprints⟩ := ok_of_any hpass
  obtain ⟨text, htext⟩ := isOk_iff.mp hprints
  rw [instrument_eq h, hr, Except.bind, htext]
  rfl

end CallProbe.Probe
