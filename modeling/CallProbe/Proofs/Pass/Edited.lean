import CallProbe.Proofs.Pass.Resolved
import CallProbe.Proofs.Probe.Steps

/-! # What a pass changes

`FileEdited` says what a file becomes, place by place: a function that was asked for gets the attributes, the signature
and the body that its probes have left, the constants that were asked for with it go right after it where there is a place
for them, and everything else stays as it was, in its order. A pass without failures gives exactly that. -/

namespace CallProbe.Probe

open Source Parse
open Project (ProbedAs foundAs probedAs_of_probes)

/-! ### Edits -/

/-- The probes that a function of a file is asked for. -/
def Request.asksOf (r : Request) (x : Reached) : List Ask := r.asks x.name x.function

/-- What becomes of a function that stands in a file as `kept`, and the constants asked for with it. `place` puts
    attributes, signature and body where those of the function are. -/
inductive Becomes (r : Request) (x : Reached) (kept : Tree) (place : Tree → Tree → Tree → Tree) : Tree → List Tree → Prop where
  | left (h : r.asksOf x = []) : Becomes r x kept place kept []
  | probed {done : List Probed} {g : Function} {body : Tree} (hne : r.asksOf x ≠ [])
      (h : Ask.Chain x.name x.function (r.asksOf x) done g) (hbody : g.body = some body) :
      Becomes r x kept place (place (.node .attrs g.attrs) g.sig body) (done.filterMap (·.details))

/-- A member of an implementation, with what is put after it. -/
inductive MethodEdited (r : Request) (scope : String) (ofTrait : Bool) : Tree → List Tree → Prop where
  | method {attrs vis dflt sig body member : Tree} {consts : List Tree} {f : Function}
      (hf : f = Function.ofParts attrs vis sig body)
      (h : Becomes r ⟨qualified scope f.name, f⟩ (.node .methodItem [attrs, vis, dflt, sig, body])
        (fun attrs sig body => .node .methodItem [attrs, vis, dflt, sig, body]) member consts) :
      MethodEdited r scope ofTrait (.node .methodItem [attrs, vis, dflt, sig, body])
        (member :: if ofTrait then [] else consts.map memberConst)
  | other {k : Kind} {cs : List Tree} (hk : k ≠ .methodItem) : MethodEdited r scope ofTrait (.node k cs) [.node k cs]

/-- A member of a trait. -/
inductive TraitFnEdited (r : Request) (scope : String) : Tree → Tree → Prop where
  | method {attrs sig body member : Tree} {consts : List Tree} {f : Function} (hf : f = Function.ofParts attrs .absent sig body)
      (h : Becomes r ⟨qualified scope f.name, f⟩ (.node .traitFn [attrs, sig, body])
        (fun attrs sig body => .node .traitFn [attrs, sig, body]) member consts) :
      TraitFnEdited r scope (.node .traitFn [attrs, sig, body]) member
  | other {k : Kind} {cs : List Tree} (hk : k ≠ .traitFn) : TraitFnEdited r scope (.node k cs) (.node k cs)

mutual

/-- An item, with what is put after it. -/
inductive ItemEdited (r : Request) : Tree → List Tree → Prop where
  | free {attrs vis sig body item : Tree} {consts : List Tree} {f : Function} (hf : f = Function.ofParts attrs vis sig body)
      (h : Becomes r ⟨f.name, f⟩ (.node .fnItem [attrs, vis, sig, body])
        (fun attrs sig body => .node .fnItem [attrs, vis, sig, body]) item consts) :
      ItemEdited r (.node .fnItem [attrs, vis, sig, body]) (item :: consts)
  | module {attrs vis u m n inner : Tree} {d : Delimiter} {o c : Pos} {items items' : List Tree}
      (h : ItemsEdited r items items') :
      ItemEdited r (.node .modItem [attrs, vis, u, m, n, .group d o [inner, .node .items items] c])
        [.node .modItem [attrs, vis, u, m, n, .group d o [inner, .node .items items'] c]]
  | elsewhere {attrs vis u m n : Tree} {semi : Leaf} :
      ItemEdited r (.node .modItem [attrs, vis, u, m, n, .leaf semi]) [.node .modItem [attrs, vis, u, m, n, .leaf semi]]
  | implementation {attrs dflt u i gs of self w inner : Tree} {d : Delimiter} {o c : Pos} {members : List Tree}
      {members' : List (List Tree)} (h : List.Forall₂ (MethodEdited r (typeName self) of.isPresent) members members') :
      ItemEdited r (.node .implItem [attrs, dflt, u, i, gs, of, self, w, .group d o [inner, .node .items members] c])
        [.node .implItem [attrs, dflt, u, i, gs, of, self, w, .group d o [inner, .node .items members'.flatten] c]]
  | trait {attrs vis u a t n gs colon bs w inner : Tree} {d : Delimiter} {o c : Pos} {members members' : List Tree}
      (h : List.Forall₂ (TraitFnEdited r n.text) members members') :
      ItemEdited r (.node .traitItem [attrs, vis, u, a, t, n, gs, colon, bs, w, .group d o [inner, .node .items members] c])
        [.node .traitItem [attrs, vis, u, a, t, n, gs, colon, bs, w, .group d o [inner, .node .items members'] c]]
  | other {k : Kind} {cs : List Tree} (hk : holdsFns k = false) : ItemEdited r (.node k cs) [.node k cs]

/-- Items in their order. -/
inductive ItemsEdited (r : Request) : List Tree → List Tree → Prop where
  | nil : ItemsEdited r [] []
  | cons {t : Tree} {ts here rest : List Tree} (h : ItemEdited r t here) (hs : ItemsEdited r ts rest) :
      ItemsEdited r (t :: ts) (here ++ rest)

end

/-- A file. -/
inductive FileEdited (r : Request) : Tree → Tree → Prop where
  | file {attrs : Tree} {items items' : List Tree} (h : ItemsEdited r items items') :
      FileEdited r (.node .file [attrs, .node .items items]) (.node .file [attrs, .node .items items'])

/-! ### Functions -/

variable {r : Request} {x : Reached} {Q : Tree → Prop}

/-- A function whose probes all succeed. -/
def Probes (r : Request) (x : Reached) : Prop := ∃ done, r.probes x = .ok done

/-- It is left as it is if nothing is asked for, and otherwise becomes what the last probe has left. -/
theorem Probes.change (h : Probes r x) : (r.change? x = none ∧ r.asksOf x = []) ∨
    ∃ done g, r.change? x = some (g, done.filterMap (·.details)) ∧ r.asksOf x ≠ [] ∧
      Ask.Chain x.name x.function (r.asksOf x) done g := by
  obtain ⟨done, hdone⟩ := h
  obtain ⟨g, hchain⟩ := Ask.applyAll_ok.mp hdone
  have hlength := hchain.length_eq
  have hitem := hchain.item_eq
  unfold Request.change?
  rw [hdone]
  cases done with
  | nil => exact .inl ⟨rfl, List.eq_nil_of_length_eq_zero hlength.symm⟩
  | cons p ps =>
    have hne : r.asksOf x ≠ [] := fun hnil => by
      rw [Request.asksOf] at hnil
      rw [hnil] at hlength
      cases hlength
    refine .inr ⟨p :: ps, g, ?_, hne, hchain⟩
    dsimp only
    rw [hitem]

theorem Probes.becomes (h : Probes r x) (kept : Tree) (place : Tree → Tree → Tree → Tree) :
    (r.change? x = none ∧ Becomes r x kept place kept []) ∨
      ∃ g consts, r.change? x = some (g, consts) ∧ ∀ body, Becomes r x kept place (place (.node .attrs g.attrs) g.sig (g.body.getD body)) consts := by
  rcases h.change with ⟨hnone, hasks⟩ | ⟨done, g, hsome, hne, hchain⟩
  · exact .inl ⟨hnone, .left hasks⟩
  · obtain ⟨b, hb⟩ := hchain.item_body hne
    refine .inr ⟨g, done.filterMap (·.details), hsome, fun body => ?_⟩
    rw [hb, Option.getD_some]
    exact .probed hne hchain hb

/-! ### Members -/

theorem editMethod_edits {scope : String} {t : Tree} (ofTrait : Bool) (hform : MethodForm Q t)
    (h : ∀ x ∈ reachedMethod scope t, Probes r x) : MethodEdited r scope ofTrait t (r.editMethod scope ofTrait t) := by
  cases hform with
  | @method attrs vis dflt sig body =>
    simp only [Request.editMethod]
    have hprobes := h _ (by rw [reachedMethod]; exact List.mem_singleton_self _)
    rcases hprobes.becomes (.node .methodItem [attrs, vis, dflt, sig, body])
      (fun attrs sig body => .node .methodItem [attrs, vis, dflt, sig, body]) with ⟨hnone, hleft⟩ | ⟨g, consts, hsome, hprobed⟩
    · rw [hnone]
      have hedited := @MethodEdited.method r scope ofTrait _ _ _ _ _ _ _ _ rfl hleft
      cases ofTrait <;> exact hedited
    · rw [hsome]
      exact .method rfl (hprobed body)
  | @other k cs hk =>
    rw [editMethod_other fun _ _ _ _ _ he => hk (Tree.node.inj he).1]
    exact .other hk

theorem editTraitFn_edits {scope : String} {t : Tree} (hform : TraitFnForm Q t)
    (h : ∀ x ∈ reachedTraitFn scope t, Probes r x) : TraitFnEdited r scope t (r.editTraitFn scope t) := by
  have hmethod : ∀ attrs sig body, t = .node .traitFn [attrs, sig, body] → TraitFnEdited r scope t (r.editTraitFn scope t) := by
    rintro attrs sig body rfl
    simp only [Request.editTraitFn]
    have hprobes := h _ (by rw [reachedTraitFn]; exact List.mem_singleton_self _)
    rcases hprobes.becomes (.node .traitFn [attrs, sig, body])
      (fun attrs sig body => .node .traitFn [attrs, sig, body]) with ⟨hnone, hleft⟩ | ⟨g, consts, hsome, hprobed⟩
    · rw [hnone]
      exact .method rfl hleft
    · rw [hsome]
      exact .method rfl (hprobed body)
  cases hform with
  | provided => exact hmethod _ _ _ rfl
  | required => exact hmethod _ _ _ rfl
  | @other k cs hk =>
    rw [editTraitFn_other fun _ _ _ he => hk (Tree.node.inj he).1]
    exact .other hk

/-! ### Items -/

theorem edit_other {k : Kind} {cs : List Tree} (h : holdsFns k = false) : r.edit (.node k cs) = [.node k cs] := by
  unfold Request.edit
  split
  all_goals first
    | rfl
    | (rename_i he; cases he; cases h)

theorem forall₂_map {α β : Type} {R : α → β → Prop} {f : α → β} {xs : List α} (h : ∀ x ∈ xs, R x (f x)) :
    List.Forall₂ R xs (xs.map f) := by
  induction xs with
  | nil => exact .nil
  | cons x xs ih => exact .cons (h x (by simp)) (ih fun y hy => h y (by simp [hy]))

theorem editAll_edits {items : List Tree} (h : ∀ t ∈ items, (∀ x ∈ reached t, Probes r x) → ItemEdited r t (r.edit t))
    (hprobes : ∀ x ∈ reachedAll items, Probes r x) : ItemsEdited r items (r.editAll items) := by
  induction items with
  | nil =>
    rw [Request.editAll]
    exact .nil
  | cons t ts ih =>
    rw [reachedAll] at hprobes
    obtain ⟨hhere, hrest⟩ := List.forall_mem_append.mp hprobes
    rw [Request.editAll]
    exact .cons (h t (by simp) hhere) (ih (fun u hu => h u (by simp [hu])) hrest)

theorem edit_edits {t : Tree} (hform : ItemForm Q t) (h : ∀ x ∈ reached t, Probes r x) : ItemEdited r t (r.edit t) := by
  induction hform with
  | @free attrs vis sig body =>
    simp only [Request.edit]
    have hprobes := h _ (by rw [reached]; exact List.mem_singleton_self _)
    rcases hprobes.becomes (.node .fnItem [attrs, vis, sig, body])
      (fun attrs sig body => .node .fnItem [attrs, vis, sig, body]) with ⟨hnone, hleft⟩ | ⟨g, consts, hsome, hprobed⟩
    · rw [hnone]
      exact .free rfl hleft
    · rw [hsome]
      exact .free rfl (hprobed body)
  | module _ ih =>
    simp only [Request.edit]
    exact .module (editAll_edits ih (by simpa only [reached] using h))
  | elsewhere => exact .elsewhere
  | implementation hmembers =>
    simp only [Request.edit]
    rw [List.flatMap_def]
    refine .implementation (forall₂_map fun m hm => editMethod_edits _ (hmembers m hm) fun x hx => h x ?_)
    simp only [reached]
    exact List.mem_flatMap.mpr ⟨m, hm, hx⟩
  | trait hmembers =>
    simp only [Request.edit]
    refine .trait (forall₂_map fun m hm => editTraitFn_edits (hmembers m hm) fun x hx => h x ?_)
    simp only [reached]
    exact List.mem_flatMap.mpr ⟨m, hm, hx⟩
  | other hk =>
    rw [edit_other hk]
    exact .other hk

theorem editFile_edits {ts : List TokenTree} {file : Tree} (h : Grammar.parseFile ts = .ok file)
    (hprobes : ∀ x ∈ reachedIn file, Probes r x) : FileEdited r file (r.editFile file) := by
  obtain ⟨attrs, items, rfl, hitems⟩ := parseFile_items (Q := fun _ => True) (fun _ _ _ _ _ => trivial)
    (fun _ _ _ _ _ => trivial) h
  simp only [Request.editFile]
  exact .file (editAll_edits (fun t ht hx => edit_edits (hitems t ht) hx) hprobes)

/-! ### Passes -/

theorem functions_of_probes {done : List Probed} (h : r.probes x = .ok done) : ∀ p ∈ done, p.function = x.name := by
  obtain ⟨g, hchain⟩ := Ask.applyAll_ok.mp h
  exact hchain.functions

/-- A pass over a file that can be read. If the probes of all functions succeed, the result is the text of the file in which
    these functions are replaced by what their probes have left and nothing else is changed, and what was probed is told
    function by function, in the order of the file. Otherwise the result is the failure of the first function in that order
    whose probes fail. -/
theorem instrument_edits {path source : String} {file : Tree} (h : fileOfText path source = .ok file) (targets : List String)
    (plan : Option Plan) :
    let r := requestFor file targets plan
    (∃ dones file', List.Forall₂ (fun x done => ProbedAs r x done ∧ ∀ p ∈ done, p.function = x.name) (reachedIn file) dones ∧
      FileEdited r file file' ∧ instrument path source targets plan = (textOfFile file').map fun text =>
        { source := header dones.flatten ++ text, probed := dones.flatten, skipped := r.skipsIn file }) ∨
    ∃ before x after e, reachedIn file = before ++ x :: after ∧
      (∀ y ∈ before, ∃ done g, Ask.Chain y.name y.function (r.asksOf y) done g) ∧
      Ask.Breaks x.name x.function (r.asksOf x) e ∧ instrument path source targets plan = .error e := by
  intro r
  obtain ⟨ts, -, hparse⟩ := fileOfText_ok h
  have hperforms := instrumentTree_performs targets plan file
  rw [instrument_eq h]
  cases hprobes : (reachedIn file).mapM r.probes with
  | ok dones =>
    rw [show (reachedIn file).mapM (requestFor file targets plan).probes = .ok dones from hprobes] at hperforms
    have hall := mapM_eq_ok.mp hprobes
    refine .inl ⟨dones, r.editFile file, hall.imp fun x done hx => ⟨probedAs_of_probes hx, functions_of_probes hx⟩,
      editFile_edits hparse (mapM_defined hprobes), ?_⟩
    rw [hperforms]
    rfl
  | error e =>
    rw [show (reachedIn file).mapM (requestFor file targets plan).probes = .error e from hprobes] at hperforms
    obtain ⟨before, x, after, hsplit, hx, dones, hbefore⟩ := mapM_eq_error hprobes
    refine .inr ⟨before, x, after, e, hsplit, fun y hy => ?_, Ask.applyAll_error.mp hx, ?_⟩
    · obtain ⟨done, hdone⟩ := mapM_defined hbefore y hy
      exact ⟨done, Ask.applyAll_ok.mp hdone⟩
    · rw [hperforms]
      rfl

/-- The plan to wrap all calls with `w`. -/
def wrapAll : Plan := .wrapCalls { wrapper := .node .path [.absent, .list [.node .segment [.leaf (.word "w" Pos.none), .absent]]] }

/-- An implementation with two methods, one of them selected. -/
theorem instrument_edits_methods : ∃ file file' result, fileOfText "lib.rs" "impl S { fn f() {} fn h() {} }" = .ok file ∧
    (reachedIn file).map (·.name) = ["S::f", "S::h"] ∧ FileEdited (requestFor file ["S::f"] (some wrapAll)) file file' ∧
    instrument "lib.rs" "impl S { fn f() {} fn h() {} }" ["S::f"] (some wrapAll) = .ok result ∧
    (textOfFile file').map (header result.probed ++ ·) = .ok result.source := by
  obtain ⟨file, hfile, htest⟩ := @ok_of_any _ _ (fileOfText "lib.rs" "impl S { fn f() {} fn h() {} }")
    (fun file => (reachedIn file).map (·.name) == ["S::f", "S::h"] &&
      (instrumentTree ["S::f"] (some wrapAll) file).toOption.any fun r => (textOfFile r.1).isOk) (by decide +kernel)
  obtain ⟨hnames, hpass⟩ := Bool.and_eq_true_iff.mp htest
  have hok := instrument_isOk hfile hpass
  obtain ⟨dones, file', -, hedited, hresult⟩ | ⟨-, -, -, e, -, -, -, he⟩ := instrument_edits hfile ["S::f"] (some wrapAll)
  · cases htext : textOfFile file' with
    | error e =>
      rw [hresult, htext] at hok
      cases hok
    | ok text =>
      rw [htext] at hresult
      exact ⟨file, file', _, hfile, by simpa using hnames, hedited, hresult, by rw [htext]; rfl⟩
  · rw [he] at hok
    cases hok

end CallProbe.Probe
