import CallProbe.Proofs.Walk.Parts

/-! # What a strategy sees of a walk

A strategy is asked about calls, and replaces those that it accepted. Which calls these are, and how they lie
inside each other, depends on the tree alone (`visits`). A strategy that also keeps a log of what it is asked
(`logged`) does what it did before, and its log shows the calls in order: about each it is asked first, then
the calls inside it are handled, and then it is replaced if it was accepted (`Handles`). -/

namespace CallProbe.Call

open Source

/-! ### Calls inside calls -/

/-- Calls in the order in which they are asked about, each with the calls inside it. -/
inductive Calls where
  | nil
  | cons (call : Tree) (inside rest : Calls)

namespace Calls

def append : Calls → Calls → Calls
  | nil, ds => ds
  | cons e inside rest, ds => cons e inside (rest.append ds)

/-- The calls, each before those inside it. -/
def list : Calls → List Tree
  | nil => []
  | cons e inside rest => e :: (inside.list ++ rest.list)

@[simp]
theorem append_nil (cs : Calls) : cs.append nil = cs := by
  induction cs with
  | nil => rfl
  | cons e inside rest _ ih => rw [append, ih]

@[simp]
theorem list_append (cs ds : Calls) : (cs.append ds).list = cs.list ++ ds.list := by
  induction cs with
  | nil => rfl
  | cons e inside rest _ ih => simp [append, list, ih]

def joined (css : List Calls) : Calls := css.foldr append nil

@[simp]
theorem joined_nil : joined [] = nil := rfl

@[simp]
theorem joined_cons (cs : Calls) (css : List Calls) : joined (cs :: css) = cs.append (joined css) := rfl

end Calls

/-- Whether a strategy is asked about a tree. -/
def isAsked (t : Tree) : Bool := (generatedCall? t).isNone && (callOf? t).isSome

theorem site?_isSome (function : String) (t : Tree) : (site? function t).isSome = isAsked t := by
  cases hg : generatedCall? t <;> simp [site?, isAsked, hg, Site.of?_isSome]

theorem site?_eq_of_isAsked {t : Tree} (function : String) (h : isAsked t = true) :
    site? function t = Site.of? function t := by
  cases hg : generatedCall? t with
  | none => simp [site?, hg]
  | some name => simp [isAsked, hg] at h

theorem isAsked_of_no_site {function : String} {t : Tree} (h : site? function t = none) : isAsked t = false := by
  rw [← site?_isSome function, h]
  rfl

theorem isAsked_of_site {function : String} {t : Tree} {site : Site} (h : site? function t = some site) :
    isAsked t = true ∧ Site.of? function t = some site := by
  have ha : isAsked t = true := by
    rw [← site?_isSome function, h]
    rfl
  exact ⟨ha, by rw [← site?_eq_of_isAsked function ha, h]⟩

/-- The calls of a tree that a walk asks about. -/
def visits (t : Tree) : Calls :=
  let inside := Calls.joined ((parts t).attach.map fun p => visits p.1)
  if isAsked t then .cons t inside .nil else inside
termination_by sizeOf t
decreasing_by exact sizeOf_parts p.2

theorem visits_eq (t : Tree) : visits t =
    if isAsked t then .cons t (Calls.joined ((parts t).map visits)) .nil else Calls.joined ((parts t).map visits) := by
  rw [visits]
  simp

theorem Calls.mem_joined {css : List Calls} {c : Tree} : c ∈ (Calls.joined css).list ↔ ∃ cs ∈ css, c ∈ cs.list := by
  induction css with
  | nil => simp [Calls.list]
  | cons cs css ih => simp [Calls.list_append, ih]

theorem mem_visits_of_parts {t p c : Tree} (hp : p ∈ parts t) (hc : c ∈ (visits p).list) : c ∈ (visits t).list := by
  have hjoined : c ∈ (Calls.joined ((parts t).map visits)).list := Calls.mem_joined.mpr ⟨_, List.mem_map_of_mem hp, hc⟩
  rw [visits_eq]
  cases isAsked t with
  | true => simp [Calls.list, hjoined]
  | false => exact hjoined

theorem visits_leaf (l : Leaf) : visits (.leaf l) = .nil := by
  rw [visits_eq]
  rfl

theorem Calls.joined_list (css : List Calls) : (Calls.joined css).list = css.flatMap Calls.list := by
  induction css with
  | nil => rfl
  | cons cs css ih => rw [Calls.joined_cons, Calls.list_append, ih, List.flatMap_cons]

/-- The calls of a tree, in the order in which a walk comes to them. -/
theorem visits_list (t : Tree) : (visits t).list = (if isAsked t then [t] else []) ++
    (parts t).flatMap fun p => (visits p).list := by
  rw [visits_eq]
  cases isAsked t with
  | true => simp [Calls.list, Calls.joined_list, List.flatMap_map]
  | false => simp [Calls.joined_list, List.flatMap_map]

/-! ### What is called -/

/-- A call, without the `await` after it. -/
def withoutAwait : Tree → Tree
  | .node .awaitExpr [_, base, _, _] => base
  | e => e

/-- What a call or an awaited call calls. -/
def calls? (t : Tree) : Option Target := Target.ofCall? (withoutAwait t)

theorem callOf?_eq (t : Tree) : (callOf? t).map Prod.fst = calls? t := by
  fun_cases withoutAwait t with
  | case1 => simp [callOf?, calls?, withoutAwait, Function.comp_def]
  | case2 t h => simp [callOf?, calls?, withoutAwait, Function.comp_def]

theorem callOf?_isSome (t : Tree) : (callOf? t).isSome = (calls? t).isSome := by
  rw [← callOf?_eq, Option.isSome_map]

theorem generatedCall?_eq (t : Tree) : generatedCall? t = runtimeCall? (withoutAwait t) := by
  fun_cases withoutAwait t with
  | case1 => rfl
  | case2 t h => simp [generatedCall?]

theorem withoutAwait_of_kind {k : Kind} {cs : List Tree} (hk : k ≠ .awaitExpr) :
    withoutAwait (.node k cs) = .node k cs := by
  simp [withoutAwait, hk]

theorem target_of? (function : String) (c : Tree) : (Site.of? function c).map Site.target = calls? c := by
  rw [← callOf?_eq, Site.of?, Option.map_map]
  rfl

/-! ### Logs -/

/-- What a strategy is asked for. -/
inductive Event where
  | asked (site : Site) (accepted : Bool)
  | replaced (site : Site)

/-- The strategy that keeps a log. -/
def Strategy.logged {σ : Type} (strategy : Strategy σ) : Strategy (σ × List Event) where
  accepts site := fun (s, log) =>
    let (accepted, s) := strategy.accepts site s
    (accepted, s, log ++ [.asked site accepted])
  replace site call := fun (s, log) =>
    let (new, s) := strategy.replace site call s
    (new, s, log ++ [.replaced site])

@[simp]
theorem Strategy.logged_accepts {σ : Type} (strategy : Strategy σ) (site : Site) (s : σ) (log : List Event) :
    strategy.logged.accepts site (s, log) =
      ((strategy.accepts site s).1, (strategy.accepts site s).2, log ++ [.asked site (strategy.accepts site s).1]) :=
  rfl

@[simp]
theorem Strategy.logged_replace {σ : Type} (strategy : Strategy σ) (site : Site) (call : Tree) (s : σ) (log : List Event) :
    strategy.logged.replace site call (s, log) =
      ((strategy.replace site call s).1, (strategy.replace site call s).2, log ++ [.replaced site]) :=
  rfl

/-- A log that shows how calls are handled: each is asked about, then the calls inside it are handled, then it
    is replaced if it was accepted, and then the next call is handled. -/
inductive Handles (function : String) : Calls → List Event → Prop where
  | nil : Handles function .nil []
  | accepted {e : Tree} {site : Site} {inside rest : Calls} {within after : List Event} :
    Site.of? function e = some site → Handles function inside within → Handles function rest after →
    Handles function (.cons e inside rest) (.asked site true :: (within ++ .replaced site :: after))
  | rejected {e : Tree} {site : Site} {inside rest : Calls} {within after : List Event} :
    Site.of? function e = some site → Handles function inside within → Handles function rest after →
    Handles function (.cons e inside rest) (.asked site false :: (within ++ after))

theorem Handles.append {function : String} {cs ds : Calls} {log more : List Event} (hc : Handles function cs log)
    (hd : Handles function ds more) : Handles function (cs.append ds) (log ++ more) := by
  induction hc with
  | nil => exact hd
  | accepted hs hin _ _ ih => simpa [Calls.append] using Handles.accepted hs hin ih
  | rejected hs hin _ _ ih => simpa [Calls.append] using Handles.rejected hs hin ih

def sitesAsked (log : List Event) : List Site := log.filterMap fun
  | .asked site _ => some site
  | .replaced _ => none

def sitesAccepted (log : List Event) : List Site := log.filterMap fun
  | .asked site true => some site
  | _ => none

def sitesReplaced (log : List Event) : List Site := log.filterMap fun
  | .asked _ _ => none
  | .replaced site => some site

@[simp]
theorem sitesAccepted_append (log more : List Event) :
    sitesAccepted (log ++ more) = sitesAccepted log ++ sitesAccepted more := List.filterMap_append

@[simp]
theorem sitesAccepted_asked_true (site : Site) (log : List Event) :
    sitesAccepted (.asked site true :: log) = site :: sitesAccepted log := rfl

@[simp]
theorem sitesAccepted_asked_false (site : Site) (log : List Event) :
    sitesAccepted (.asked site false :: log) = sitesAccepted log := rfl

@[simp]
theorem sitesAccepted_replaced (site : Site) (log : List Event) :
    sitesAccepted (.replaced site :: log) = sitesAccepted log := rfl

@[simp]
theorem sitesAccepted_nil : sitesAccepted [] = [] := rfl

theorem Handles.sitesAsked_map {function : String} {cs : Calls} {log : List Event} (h : Handles function cs log) :
    (sitesAsked log).map some = cs.list.map (Site.of? function) := by
  induction h with
  | nil => rfl
  | accepted hs _ _ ihi ihr => simp_all [sitesAsked, Calls.list]
  | rejected hs _ _ ihi ihr => simp_all [sitesAsked, Calls.list]

/-- Just the accepted calls are replaced, each as often as it was accepted. -/
theorem Handles.replaced_perm {function : String} {cs : Calls} {log : List Event} (h : Handles function cs log) :
    (sitesReplaced log).Perm (sitesAccepted log) := by
  induction h with
  | nil => exact .refl _
  | accepted hs _ _ ihi ihr =>
    simp only [sitesReplaced, sitesAccepted, List.filterMap_cons, List.filterMap_append] at ihi ihr ⊢
    exact List.perm_middle.trans (.cons _ (ihi.append ihr))
  | rejected hs _ _ ihi ihr =>
    simp only [sitesReplaced, sitesAccepted, List.filterMap_cons, List.filterMap_append] at ihi ihr ⊢
    exact ihi.append ihr

/-! ### Walks with a log -/

section
variable {σ : Type} (strategy : Strategy σ) (function : String)

/-- A strategy with a log does what it does without one, its log handles the given calls, and as many calls as
    it accepted are counted. -/
def Logs {α : Type} (calls : Calls) (plain : StateT Nat (StateM σ) α)
    (logged : StateT Nat (StateM (σ × List Event)) α) : Prop :=
  ∀ n s log, ∃ events, Handles function calls events ∧
    logged n (s, log) = ((plain n s).1, (plain n s).2, log ++ events) ∧
    (plain n s).1.2 = n + (sitesAccepted events).length

theorem walkAll_logged {ts : List Tree}
    (h : ∀ t ∈ ts, Logs function (visits t) (walk strategy function t) (walk strategy.logged function t)) :
    Logs function (Calls.joined (ts.map visits)) (walkAll strategy function ts) (walkAll strategy.logged function ts) := by
  induction ts with
  | nil =>
    intro n s log
    refine ⟨[], .nil, ?_, ?_⟩ <;> simp
  | cons t ts ih =>
    intro n s log
    obtain ⟨first, hfirst, hrun, hcount⟩ := h t (by simp) n s log
    obtain ⟨more, hmore, hruns, hcounts⟩ := ih (fun u hu => h u (by simp [hu])) (walk strategy function t n s).1.2
      (walk strategy function t n s).2 (log ++ first)
    refine ⟨first ++ more, hfirst.append hmore, ?_, ?_⟩
    · simp only [walkAll_cons, hrun, hruns, List.append_assoc]
    · rw [walkAll_cons, hcounts, hcount, sitesAccepted_append, List.length_append, Nat.add_assoc]

/-- Keeping a log changes nothing else in a walk, and the log handles the calls that the tree has. -/
theorem walk_logged (t : Tree) :
    Logs function (visits t) (walk strategy function t) (walk strategy.logged function t) := by
  -- The induction is on the visited parts: what a walk does not enter is neither asked about nor logged.
  induction t using parts_induction with
  | step t ih =>
    have hparts := walkAll_logged strategy function ih
    rw [visits_eq]
    cases hsite : site? function t with
    | none =>
      have ha := isAsked_of_no_site hsite
      intro n s log
      obtain ⟨events, hevents, hrun, hcount⟩ := hparts n s log
      rw [walk_of_none _ _ hsite, walk_of_none _ _ hsite]
      exact ⟨events, by simpa [ha] using hevents, by simp only [hrun], hcount⟩
    | some site =>
      obtain ⟨ha, hof⟩ := isAsked_of_site hsite
      intro n s log
      obtain ⟨events, hevents, hrun, hcount⟩ := hparts n (strategy.accepts site s).2
        (log ++ [.asked site (strategy.accepts site s).1])
      rw [walk_of_some _ _ hsite, walk_of_some _ _ hsite]
      simp only [ha, ↓reduceIte]
      cases hacc : (strategy.accepts site s).1 with
      | true =>
        rw [hacc] at hrun
        refine ⟨_, .accepted hof hevents .nil, ?_, ?_⟩
        · simp [hrun, hacc]
        · simp [hcount]
          omega
      | false =>
        rw [hacc] at hrun
        refine ⟨_, .rejected hof hevents .nil, ?_, ?_⟩
        · simp [hrun, hacc]
        · simp [hcount]

end

end CallProbe.Call
