import CallProbe.Probe.Wrap
import CallProbe.Proofs.Walk.Visits
import CallProbe.Proofs.Shape.Regular
import Mathlib.Algebra.Ring.Nat

/-! # What wrapping gives

Options answer every question without a look at what was asked before, so what they make of a tree can be said
part by part, without a state: `wrapTree` is the tree, `acceptedCount` the number of calls that are wrapped, and
`haltOf` what stops it first. `walk_wraps` ties the three to a walk. What wrapping leaves as it was, the names of
paths above all, is said here once. -/

namespace CallProbe.Probe

open Source Call

namespace CallOptions

/-! ### Wrapping part by part -/

section
variable (options : CallOptions) (function : String)

/-- A tree with its accepted calls wrapped. -/
def wrapTree (t : Tree) : Tree :=
  let new := withParts t ((parts t).attach.map fun p => wrapTree p.1)
  match site? function t with
  | some site => if options.accepts site.target then wrapped options.wrapper site new else new
  | none => new
termination_by sizeOf t
decreasing_by exact sizeOf_parts p.2

/-- A tree with the accepted calls inside it wrapped. -/
def wrapInside (t : Tree) : Tree := withParts t ((parts t).map (options.wrapTree function))

theorem wrapTree_eq (t : Tree) : options.wrapTree function t = (match site? function t with
    | some site => if options.accepts site.target then wrapped options.wrapper site (options.wrapInside function t)
      else options.wrapInside function t
    | none => options.wrapInside function t) := by
  rw [wrapTree]
  simp [wrapInside]

def acceptsCall (e : Tree) : Bool := (Site.of? function e).any fun site => options.accepts site.target

def acceptedCount (calls : Calls) : Nat := calls.list.countP (options.acceptsCall function)

theorem acceptedCount_append (cs ds : Calls) :
    options.acceptedCount function (cs.append ds) = options.acceptedCount function cs + options.acceptedCount function ds := by
  rw [acceptedCount, Calls.list_append, List.countP_append]
  rfl

theorem acceptedCount_joined (ts : List Tree) :
    options.acceptedCount function (Calls.joined (ts.map visits)) =
      (ts.map fun t => options.acceptedCount function (visits t)).sum := by
  induction ts with
  | nil => rfl
  | cons t ts ih => rw [List.map_cons, Calls.joined_cons, acceptedCount_append, ih, List.map_cons, List.sum_cons]

/-- What stops wrapping when it comes to a call: a part of it cannot be shown. -/
def hiddenHalt (e : Tree) : Option Halt :=
  (Site.of? function e).bind fun site => site.hidden.map .unprintable

/-- What stops wrapping when it replaces a call: what takes the place of the call cannot be read. -/
def guardHalt (e : Tree) : Option Halt :=
  (Site.of? function e).bind fun site =>
    if options.accepts site.target then
      (unreadable? options.wrapper site (options.wrapInside function e)).map .broken
    else none

/-- What stops wrapping of calls first. -/
def haltOf : Calls → Option Halt
  | .nil => none
  | .cons e inside rest =>
    (hiddenHalt function e).or ((haltOf inside).or ((options.guardHalt function e).or (haltOf rest)))

theorem haltOf_append (cs ds : Calls) :
    options.haltOf function (cs.append ds) = (options.haltOf function cs).or (options.haltOf function ds) := by
  induction cs with
  | nil => rfl
  | cons e inside rest _ ih => simp [Calls.append, haltOf, ih, Option.or_assoc]

/-! ### A walk wraps -/

/-- A walk over trees leaves the given trees, and counts and stops as the given calls say. -/
def Wraps {α : Type} (new : α) (calls : Calls) (run : StateT Nat (StateM (Option Halt)) α) : Prop :=
  ∀ n h, run n h = ((new, n + options.acceptedCount function calls), h.or (options.haltOf function calls))

theorem walkAll_wraps {ts : List Tree}
    (h : ∀ t ∈ ts, options.Wraps function (options.wrapTree function t) (visits t) (walk options.strategy function t)) :
    options.Wraps function (ts.map (options.wrapTree function)) (Calls.joined (ts.map visits))
      (walkAll options.strategy function ts) := by
  induction ts with
  | nil =>
    intro n s
    simp [acceptedCount, Calls.list, haltOf]
  | cons t ts ih =>
    intro n s
    rw [walkAll_cons, h t (by simp) n s]
    simp only [ih (fun u hu => h u (by simp [hu])) _ _, List.map_cons, Calls.joined_cons, acceptedCount_append,
      haltOf_append, Nat.add_assoc, Option.or_assoc]

/-- A walk leaves the tree with its accepted calls wrapped, counts these, and remembers what stops it. -/
theorem walk_wraps (t : Tree) :
    options.Wraps function (options.wrapTree function t) (visits t) (walk options.strategy function t) := by
  induction t using parts_induction with
  | step t ih =>
    have hparts := options.walkAll_wraps function ih
    intro n h
    rw [visits_eq, wrapTree_eq]
    cases hsite : site? function t with
    | none =>
      have ha := isAsked_of_no_site hsite
      rw [walk_of_none _ _ hsite, hparts n h, ha]
      rfl
    | some site =>
      obtain ⟨ha, hof⟩ := isAsked_of_site hsite
      have hasked : options.strategy.accepts site h =
          (options.accepts site.target, h.or (hiddenHalt function t)) := by
        simp [strategy, hiddenHalt, hof]
        rfl
      -- Of three things that may stop it, the first counts: showing the call, the calls inside, the guard.
      rw [walk_of_some _ _ hsite, ha, hasked]
      simp only [hparts n (h.or (hiddenHalt function t))]
      cases hacc : options.accepts site.target with
      | true =>
        have hdone : ∀ h, options.strategy.replace site (options.wrapInside function t) h =
            (wrapped options.wrapper site (options.wrapInside function t), h.or (options.guardHalt function t)) := by
          intro h
          simp [strategy, guardHalt, hof, hacc]
          rfl
        rw [wrapInside] at hdone
        simp [hdone, acceptedCount, acceptsCall, Calls.list, haltOf, hof, hacc, Option.or_assoc, wrapInside]
        rfl
      | false =>
        simp [acceptedCount, acceptsCall, guardHalt, Calls.list, haltOf, hof, hacc, Option.or_assoc, wrapInside]

/-! ### What stays as it was -/

/-- Kinds of nodes whose children are all visited and that are never asked about. -/
def isOpen (k : Kind) : Bool :=
  !isClosed k && !isCallKind k && !([Kind.repeatExpr, .forExpr, .whileExpr, .matchExpr].contains k)

theorem wrapTree_of_kind {k : Kind} {cs : List Tree} (hk : isCallKind k = false) :
    options.wrapTree function (.node k cs) = options.wrapInside function (.node k cs) := by
  rw [wrapTree_eq, site?_of_kind hk]

theorem exchange_of_isOpen {k : Kind} {cs : List Tree} (hk : isOpen k = true) (new : List Tree) :
    Exchange (.node k cs) cs new (.node k new) := by
  simp only [isOpen, Bool.and_eq_true, Bool.not_eq_true'] at hk
  obtain ⟨⟨hclosed, hcall⟩, hshape⟩ := hk
  exact .children (hasOwnOrder_of_kind hshape) hclosed (generatedCall?_of_kind hcall) (fun _ => callOf?_of_kind hcall) new

theorem parts_of_isOpen {k : Kind} {cs : List Tree} (hk : isOpen k = true) : parts (.node k cs) = cs :=
  (exchange_of_isOpen hk cs).parts_eq

/-- What takes the places of the parts if they are wrapped. -/
theorem exchange_wrapInside (t : Tree) :
    Exchange t (parts t) ((parts t).map (options.wrapTree function)) (options.wrapInside function t) :=
  exchange t (List.length_map _)

variable {options function} in
theorem wrapInside_of_exchange {t t' : Tree} {ps : List Tree} (h : Exchange t ps (ps.map (options.wrapTree function)) t') :
    options.wrapInside function t = t' := by
  obtain ⟨hparts, hwith⟩ := h.unique
  rw [wrapInside, hparts, hwith]

theorem wrapTree_of_isOpen {k : Kind} {cs : List Tree} (hk : isOpen k = true) :
    options.wrapTree function (.node k cs) = .node k (cs.map (options.wrapTree function)) := by
  have hcall : isCallKind k = false := by
    simp only [isOpen, Bool.and_eq_true, Bool.not_eq_true'] at hk
    exact hk.1.2
  rw [wrapTree_of_kind _ _ hcall, wrapInside_of_exchange (exchange_of_isOpen hk _)]

/-- The children of a call that no probe has put there are wrapped. -/
theorem wrapInside_own {k : Kind} {cs : List Tree} (hk : k = .callExpr ∨ k = .methodCallExpr)
    (hr : runtimeCall? (.node k cs) = none) :
    options.wrapInside function (.node k cs) = .node k (cs.map (options.wrapTree function)) := by
  have hawait : k ≠ .awaitExpr := by rcases hk with rfl | rfl <;> decide
  have hgen : generatedCall? (.node k cs) = none := by rw [generatedCall?_eq, withoutAwait_of_kind hawait, hr]
  refine wrapInside_of_exchange (.children ?_ ?_ hgen (fun ha => absurd ha hawait) _)
  · exact hasOwnOrder_of_kind (by rcases hk with rfl | rfl <;> rfl)
  · rcases hk with rfl | rfl <;> rfl

@[simp]
theorem wrapTree_leaf (l : Leaf) : options.wrapTree function (.leaf l) = .leaf l := by
  rw [wrapTree_eq]
  rfl

@[simp]
theorem wrapTree_tokens (ts : List TokenTree) : options.wrapTree function (.tokens ts) = .tokens ts := by
  rw [wrapTree_eq]
  rfl

@[simp]
theorem wrapTree_group (d : Delimiter) (o c : Pos) (content : List Tree) :
    options.wrapTree function (.group d o content c) = .group d o (content.map (options.wrapTree function)) c := by
  rw [wrapTree_eq]
  rfl

@[simp]
theorem wrapTree_arguments (w : List TokenTree) (read : List Tree) :
    options.wrapTree function (.arguments w read) =
      .arguments ((read.map (options.wrapTree function)).flatMap Tree.written) (read.map (options.wrapTree function)) := by
  rw [wrapTree_eq]
  rfl

/-- Wrapping keeps the kind of a node, unless the node is a call. -/
theorem wrapTree_node (k : Kind) (cs : List Tree) : ∃ k' cs', options.wrapTree function (.node k cs) = .node k' cs' ∧
    (k' = k ∨ isCallKind k = true ∧ k' = .callExpr) := by
  obtain ⟨cs', hcs⟩ : ∃ cs', options.wrapInside function (.node k cs) = .node k cs' :=
    kind?_eq_some (kind?_withParts (.node k cs) _)
  cases hk : isCallKind k with
  | false =>
    rw [wrapTree_of_kind _ _ hk]
    exact ⟨k, cs', hcs, .inl rfl⟩
  | true =>
    rw [wrapTree_eq]
    split
    · split
      · exact ⟨.callExpr, _, rfl, .inr ⟨rfl, rfl⟩⟩
      · exact ⟨k, cs', hcs, .inl rfl⟩
    · exact ⟨k, cs', hcs, .inl rfl⟩

/-- Wrapping is among the maps that keep shapes. -/
theorem regular_wrapTree : Regular (options.wrapTree function) where
  leaf l := ⟨l, options.wrapTree_leaf function l, rfl⟩
  tokens ts := ⟨ts, options.wrapTree_tokens function ts⟩
  arguments written read := ⟨_, _, options.wrapTree_arguments function written read⟩
  group d o c content := ⟨o, c, options.wrapTree_group function d o c content⟩
  plain := by
    intro k cs h
    have hplain : isClosed k = true ∨ isOpen k = true := by
      cases k <;> first | exact .inl rfl | exact .inr rfl | cases h
    rcases hplain with hclosed | hopen
    · left
      rw [options.wrapTree_of_kind function (isCallKind_of_closed hclosed), wrapInside_of_exchange (.closed cs hclosed)]
    · exact .inr (options.wrapTree_of_isOpen function hopen)
  list cs := .inr ⟨cs, .inl rfl, options.wrapTree_of_isOpen function rfl⟩
  other := by
    intro k cs h hlist
    obtain ⟨k', cs', htree, rfl | ⟨-, rfl⟩⟩ := options.wrapTree_node function k cs
    · exact ⟨_, _, htree, h, hlist⟩
    · exact ⟨_, _, htree, rfl, by decide⟩

@[simp]
theorem text_wrapTree (t : Tree) : (options.wrapTree function t).text = t.text := (options.regular_wrapTree function).text t

@[simp]
theorem isPresent_wrapTree (t : Tree) : (options.wrapTree function t).isPresent = t.isPresent :=
  (options.regular_wrapTree function).isPresent t

/-! ### Names of paths -/

theorem wrapTree_kind_ne {k l : Kind} (cs : List Tree) (hk : k ≠ l) (hl : l ≠ .callExpr) :
    ∃ k' cs', options.wrapTree function (.node k cs) = .node k' cs' ∧ k' ≠ l := by
  obtain ⟨k', cs', hcs, rfl | ⟨-, rfl⟩⟩ := options.wrapTree_node function k cs
  · exact ⟨k', cs', hcs, hk⟩
  · exact ⟨.callExpr, cs', hcs, hl.symm⟩

theorem elements_wrapTree (t : Tree) :
    (options.wrapTree function t).elements = t.elements.map (options.wrapTree function) := by
  cases t with
  | node k cs =>
    by_cases hk : k = .list
    · subst hk
      rw [wrapTree_of_isOpen _ _ rfl]
      exact everySecond_map _ cs
    · obtain ⟨k', cs', hcs, hne⟩ := options.wrapTree_kind_ne function cs hk (by decide)
      rw [hcs]
      simp [Tree.elements, hk, hne]
  | leaf l => simp [Tree.elements]
  | tokens ts => simp [Tree.elements]
  | arguments w read => simp [Tree.elements]
  | group d o content c => simp [Tree.elements]

@[simp]
theorem pathNames_wrapTree (t : Tree) : Target.pathNames (options.wrapTree function t) = Target.pathNames t :=
  pathNames_regular (options.regular_wrapTree function) t

@[simp]
theorem startsAtRoot_wrapTree (t : Tree) : startsAtRoot (options.wrapTree function t) = startsAtRoot t :=
  congrArg Prod.snd (namesOf_regular (options.regular_wrapTree function) t)

theorem runtimeCall?_map (k : Kind) (cs : List Tree) :
    runtimeCall? (.node k (cs.map (options.wrapTree function))) = runtimeCall? (.node k cs) := by
  by_cases hk : k = .callExpr
  · subst hk
    match cs with
    | [attrs, callee, args] =>
      cases callee with
      | node l ls =>
        by_cases hl : l = .pathExpr
        · subst hl
          rw [List.map_cons, List.map_cons, wrapTree_of_isOpen _ _ rfl]
          match ls with
          | [as, path] => simp [runtimeCall?]
          | [] | [_] => rfl
          | _ :: _ :: _ :: _ => rfl
        · obtain ⟨l', ls', hls, hne⟩ := options.wrapTree_kind_ne function ls hl (by decide)
          rw [List.map_cons, List.map_cons, hls]
          simp [runtimeCall?, hl, hne]
      | leaf l => simp [runtimeCall?]
      | tokens ts => simp [runtimeCall?]
      | arguments w read => simp [runtimeCall?]
      | group d o content c => simp [runtimeCall?]
    | [] | [_] | [_, _] => simp [runtimeCall?]
    | _ :: _ :: _ :: _ :: _ => simp [runtimeCall?]
  · simp [runtimeCall?, hk]

end

end CallOptions

end CallProbe.Probe
