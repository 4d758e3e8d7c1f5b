import CallProbe.Proofs.Probe.Surveyed
import Mathlib.Data.List.Nodup

/-! # The names that blocks declare

Generated code declares two names: every wrapped call has a block of its own with the static of its site, and a profile puts
a static at the start of the body. The body of an async function is moved into a block of its own by the prologue, the body
of any other function stays in the block that the static is put into. `Ask.Chain.declares` follows this through all markers
of a function, and finds the one block that may declare a name twice. -/

namespace CallProbe.Probe

open Source Call

/-! ### Names of items -/

/-- Which part of an item is its name, for the kinds where this is one part. -/
def namePlace? : Kind → Option Nat
  | .constItem | .structItem | .enumItem | .unionItem | .typeItem | .traitAliasItem | .macroItem => some 3
  | .staticItem | .modItem => some 4
  | .traitItem => some 5
  | _ => none

def signatureName : Tree → String
  | .node .signature [_, _, _, _, _, n, _, _, _, _] => n.text
  | _ => ""

def newName? : Tree → Option String
  | .node .rename [_, n] => some n.text
  | _ => none

/-- The name that the parts of an item declare, or an empty text. -/
def writtenName (k : Kind) (cs : List Tree) : String :=
  match k, cs with
  | .fnItem, [_, _, sig, _] => signatureName sig
  | .externCrateItem, [_, _, _, _, n, rename, _] => (newName? rename).getD n.text
  | k, cs => ((namePlace? k).bind (cs[·]?)).elim "" Tree.text

/-- The name that an item declares. A constant may have none. -/
def itemName? : Tree → Option String
  | .node k cs => if writtenName k cs = "" ∨ writtenName k cs = "_" then none else some (writtenName k cs)
  | _ => none

/-- The name that a statement declares, if it is an item. -/
def stmtName? : Tree → Option String
  | .node .itemStmt [item] => itemName? item
  | _ => none

/-- The names of the items among statements. -/
def declared (ss : List Tree) : List String := ss.filterMap stmtName?

variable {f : Tree → Tree}

theorem signatureName_regular (h : Regular f) (t : Tree) : signatureName (f t) = signatureName t := by
  refine h.read_kind .signature "" rfl (fun t ht => ?_) (fun cs => ?_) t
  · unfold signatureName
    split
    · exact absurd rfl ht
    · rfl
  · match cs with
    | [_, _, _, _, _, n, _, _, _, _] => exact h.text n
    | [] | [_] | [_, _] | [_, _, _] | [_, _, _, _] | [_, _, _, _, _] | [_, _, _, _, _, _] | [_, _, _, _, _, _, _]
      | [_, _, _, _, _, _, _, _] | [_, _, _, _, _, _, _, _, _] => rfl
    | _ :: _ :: _ :: _ :: _ :: _ :: _ :: _ :: _ :: _ :: _ :: _ => rfl

theorem newName?_regular (h : Regular f) (t : Tree) : newName? (f t) = newName? t := by
  refine h.read_kind .rename none rfl (fun t ht => ?_) (fun cs => ?_) t
  · unfold newName?
    split
    · exact absurd rfl ht
    · rfl
  · match cs with
    | [_, n] => exact congrArg some (h.text n)
    | [] | [_] => rfl
    | _ :: _ :: _ :: _ => rfl

theorem writtenName_map (h : Regular f) (k : Kind) (cs : List Tree) : writtenName k (cs.map f) = writtenName k cs := by
  by_cases hfn : k = .fnItem
  · subst hfn
    match cs with
    | [_, _, sig, _] => exact signatureName_regular h sig
    | [] | [_] | [_, _] | [_, _, _] => rfl
    | _ :: _ :: _ :: _ :: _ :: _ => rfl
  by_cases hextern : k = .externCrateItem
  · subst hextern
    match cs with
    | [_, _, _, _, n, rename, _] => simp only [List.map_cons, List.map_nil, writtenName, newName?_regular h, h.text]
    | [] | [_] | [_, _] | [_, _, _] | [_, _, _, _] | [_, _, _, _, _] | [_, _, _, _, _, _] => rfl
    | _ :: _ :: _ :: _ :: _ :: _ :: _ :: _ :: _ => rfl
  · have hplace : ∀ cs, writtenName k cs = ((namePlace? k).bind (cs[·]?)).elim "" Tree.text := by
      intro cs
      unfold writtenName
      split
      · exact absurd rfl hfn
      · exact absurd rfl hextern
      · rfl
    rw [hplace, hplace]
    cases namePlace? k with
    | none => rfl
    | some i =>
      rw [Option.bind_some, Option.bind_some, List.getElem?_map]
      cases cs[i]? with
      | none => rfl
      | some n => exact h.text n

theorem itemName?_regular (h : Regular f) (t : Tree) : itemName? (f t) = itemName? t := by
  refine h.read_kinds isPlain none (fun _ hk => hk) (fun t ht => ?_) (fun k cs _ => ?_) t
  · cases t with
    | node k cs =>
      have hunnamed : writtenName k cs = "" := by
        cases k <;> first | rfl | cases ht
      rw [itemName?, hunnamed, if_pos (.inl rfl)]
    | _ => rfl
  · rw [itemName?, itemName?, writtenName_map h]

theorem stmtName?_regular (h : Regular f) (t : Tree) : stmtName? (f t) = stmtName? t := by
  refine h.read_kind .itemStmt none rfl (fun t ht => ?_) (fun cs => ?_) t
  · unfold stmtName?
    split
    · exact absurd rfl ht
    · rfl
  · match cs with
    | [] => rfl
    | [item] => exact itemName?_regular h item
    | _ :: _ :: _ => rfl

theorem declared_map (h : Regular f) (ss : List Tree) : declared (ss.map f) = declared ss := by
  rw [declared, List.filterMap_map]
  refine congrArg (List.filterMap · ss) (funext fun s => stmtName?_regular h s)

/-! ### Blocks -/

mutual

/-- The names that each block of a tree declares. -/
def blocks : Tree → List (List String)
  | .node k cs => if k = .stmts then declared cs :: blocksOfAll cs else blocksOfAll cs
  | .group _ _ content _ => blocksOfAll content
  | .arguments _ read => blocksOfAll read
  | _ => []

def blocksOfAll : List Tree → List (List String)
  | [] => []
  | t :: ts => blocks t ++ blocksOfAll ts

end

/-- The names that each block declares are put to a test. -/
def declaring (P : List String → Bool) : Survey where
  kind := .stmts
  test ss := P (declared ss)
  enters _ := true
  macros := true
  among := .inr ⟨rfl, fun _ => rfl⟩
  steady hf cs := ⟨congrArg P (declared_map hf cs), rfl⟩

theorem opens_declaring (P : List String → Bool) (ss : List Tree) : (declaring P).opens ss = P (declared ss) := by
  simp [Survey.opens, declaring]

theorem all_blocksOfAll {P : List String → Bool} {ts : List Tree} (h : ∀ t ∈ ts, (declaring P).passes t = (blocks t).all P) :
    ts.all (declaring P).passes = (blocksOfAll ts).all P := by
  induction ts with
  | nil => rfl
  | cons t ts ih =>
    rw [List.all_cons, h t (by simp), ih fun u hu => h u (by simp [hu]), blocksOfAll, List.all_append]

theorem passes_declaring (P : List String → Bool) (t : Tree) : (declaring P).passes t = (blocks t).all P := by
  induction t using Tree.inside_induction with
  | step t ih =>
    cases t with
    | leaf l => rfl
    | tokens ts => rfl
    | group d o content c =>
      rw [Survey.passes_group, blocks]
      exact all_blocksOfAll ih
    | arguments written read =>
      rw [Survey.passes_arguments, blocks]
      exact all_blocksOfAll ih
    | node k cs =>
      have hcs : cs.all (declaring P).passes = (blocksOfAll cs).all P := all_blocksOfAll ih
      by_cases hk : k = .stmts
      · subst hk
        rw [Survey.passes_stmts, opens_declaring, hcs, blocks, if_pos rfl, List.all_cons]
      · rw [Survey.passes_node _ _ hk, hcs, blocks, if_neg hk]

/-- The names that the body of a function declares itself. -/
def Function.ownNames (f : Function) : List String := f.body.elim [] fun b => declared (bodyStmts b)

/-- The names that each other block in a function declares. -/
def Function.innerBlocks (f : Function) : List (List String) :=
  blocksOfAll f.attrs ++ (blocks f.vis ++ (blocks f.sig ++ f.body.elim [] fun b => blocksOfAll (bodyStmts b)))

/-- The names that each block in a function declares. -/
def Function.blocks (f : Function) : List (List String) := f.ownNames :: f.innerBlocks

theorem inside_declaring (P : List String → Bool) (f : Function) : f.inside (declaring P) = f.innerBlocks.all P := by
  have hparts : ∀ ts : List Tree, ts.all (declaring P).passes = (blocksOfAll ts).all P :=
    fun ts => all_blocksOfAll fun t _ => passes_declaring P t
  rw [Function.inside, Function.innerBlocks, hparts, passes_declaring, passes_declaring]
  cases f.body with
  | none => simp
  | some b => simp [hparts]

/-! ### Names of generated items -/

theorem declared_append (ss ts : List Tree) : declared (ss ++ ts) = declared ss ++ declared ts := List.filterMap_append

variable {plan : Plan} {name : String} {body b : Tree} {asks : List Ask} {ps : List Probed}

/-- A profile declares its static, in the body itself or around the body. -/
def Plan.ownNames (isAsync : Bool) (names : List String) : Plan → List String
  | .wrapCalls _ => names
  | .profile _ => if isAsync then [profileStatic] else profileStatic :: names

theorem stmtName?_profileItem {options : ProfileOptions} {item : Tree} (h : profileItem options name = .ok item) :
    stmtName? (Make.itemStmt item) = some profileStatic := by
  cases hbelow : callbackExpr options.below with
  | error e => simp [profileItem, hbelow, bind, Except.bind] at h
  | ok below =>
    cases habove : callbackExpr options.above with
    | error e => simp [profileItem, hbelow, habove, bind, Except.bind] at h
    | ok above =>
      simp only [profileItem, hbelow, habove, bind, Except.bind, pure, Except.pure] at h
      obtain rfl := Except.ok.inj h
      rfl

theorem Plan.Makes.names {f : Function} (h : plan.Makes name f body b) (hform : IsBody body) :
    declared (bodyStmts b) = plan.ownNames f.isAsync (declared (bodyStmts body)) := by
  cases h with
  | wrapped options =>
    rw [bodyStmts_wrapTree hform, declared_map (options.regular_wrapTree name)]
    rfl
  | @started options item hsync hitem =>
    have hprologue : declared [Make.itemStmt item, guardStmt "start"] = [profileStatic] := by
      rw [declared, List.filterMap_cons_some (stmtName?_profileItem hitem)]
      rfl
    rw [bodyStmts_withStmts (hform.wrapTree options.calls name), bodyStmts_wrapTree hform, declared_append,
      declared_map (options.calls.regular_wrapTree name), hprologue, hsync]
    rfl
  | @entered options item hasync hitem =>
    rw [bodyStmts_withStmts (hform.wrapTree options.calls name), declared, List.filterMap_cons_some (stmtName?_profileItem hitem),
      hasync]
    rfl

def isAsyncSig : Tree → Bool
  | .node .signature (_ :: a :: _) => a.isPresent
  | _ => false

theorem isAsyncSig_regular (h : Regular f) (t : Tree) : isAsyncSig (f t) = isAsyncSig t := by
  refine h.read_kind .signature false rfl (fun t ht => ?_) (fun cs => ?_) t
  · unfold isAsyncSig
    split
    · exact absurd rfl ht
    · rfl
  · match cs with
    | [] | [_] => rfl
    | _ :: a :: _ => exact h.isPresent a

theorem isAsync_grouped (fn : Function) : fn.grouped.isAsync = fn.isAsync :=
  isAsyncSig_regular (regular_tree .least) fn.sig

/-- What a probe makes of the names that the body declares. -/
theorem Succeeds.names {f : Function} {strip : Option Tree} {p : Probed} (h : Succeeds plan strip name f p)
    (hbody : f.body = some body) (hform : IsBody body) :
    p.item.isAsync = f.isAsync ∧ p.item.ownNames = plan.ownNames f.isAsync f.ownNames := by
  obtain ⟨body', f', g, hbody', hstrip, hchanges, -, hitem⟩ := h.steps
  obtain rfl : body' = body := Option.some.inj (hbody'.symm.trans hbody)
  obtain ⟨b, hb, hmakes⟩ := hchanges.body
  obtain ⟨-, -, hsig, -⟩ := strip_inv hstrip
  have hb' := hmakes.isBody hform
  have hgrouped : p.item.body = some b.grouped := by rw [hitem, Function.grouped, hb, Option.map_some]
  have hasync : p.item.isAsync = f.isAsync := by
    rw [hitem, isAsync_grouped, isAsync_of_sig hchanges.sig, isAsync_of_sig hsig]
  refine ⟨hasync, ?_⟩
  have hnames := hmakes.names hform
  rw [isAsync_of_sig hsig] at hnames
  rw [Function.ownNames, Function.ownNames, hgrouped, hbody, Option.elim_some, Option.elim_some, bodyStmts_grouped hb', ← hnames]
  exact declared_map (regular_tree .least) _

/-! ### Stacked markers -/

/-- Whether an ask is for a profile. -/
def Ask.profiles (a : Ask) : Bool :=
  match a.planned with
  | .ok (.profile _) => true
  | _ => false

/-- The names that a body declares after some profiles. -/
def profiledNames (isAsync : Bool) (profiles : Nat) (names : List String) : List String :=
  if isAsync = true ∧ 0 < profiles then [profileStatic] else List.replicate profiles profileStatic ++ names

theorem profiledNames_ask {a : Ask} (h : a.planned = .ok plan) (isAsync : Bool) (n : Nat) (names : List String) :
    profiledNames isAsync n (plan.ownNames isAsync names) = profiledNames isAsync ((if a.profiles then 1 else 0) + n) names := by
  unfold Ask.profiles
  rw [h]
  cases plan with
  | wrapCalls options => simp [Plan.ownNames]
  | profile options =>
    cases isAsync with
    | true =>
      cases n with
      | zero => rfl
      | succ n => simp [profiledNames]
    | false => simp [profiledNames, Plan.ownNames, Nat.add_comm 1 n, List.replicate_succ']

/-- The static is declared once, and nothing else twice that was not before. -/
theorem profiledNames_of_few {isAsync : Bool} {n : Nat} {names : List String} (hfew : isAsync = true ∨ n ≤ 1)
    (hfree : profileStatic ∉ names) : (profiledNames isAsync n names).Nodup ∨
      ¬names.Nodup ∧ names <:+ profiledNames isAsync n names := by
  unfold profiledNames
  split
  · exact .inl (List.nodup_singleton _)
  · rename_i hkept
    have hn : n ≤ 1 := by
      rcases hfew with hasync | hn
      · have : ¬0 < n := fun hpos => hkept ⟨hasync, hpos⟩
        omega
      · exact hn
    by_cases hnodup : names.Nodup
    · left
      obtain rfl | rfl : n = 0 ∨ n = 1 := by omega
      · exact hnodup
      · exact List.nodup_cons.mpr ⟨hfree, hnodup⟩
    · exact .inr ⟨hnodup, List.suffix_append _ _⟩

theorem Ask.Chain.ownNames {f g : Function} (h : Ask.Chain name f asks ps g) (hbody : f.body = some body) (hform : IsBody body) :
    g.ownNames = profiledNames f.isAsync (asks.countP Ask.profiles) f.ownNames := by
  induction h generalizing body with
  | done f => simp [profiledNames]
  | @next f g a as p ps ha _ ih =>
    obtain ⟨plan, hplan, hsucceeds⟩ := Ask.apply_inv ha
    obtain ⟨b, hb, hb'⟩ := hsucceeds.isBody hbody hform
    obtain ⟨hasync, hnames⟩ := hsucceeds.names hbody hform
    rw [ih hb hb', hasync, hnames, profiledNames_ask hplan, List.countP_cons, Nat.add_comm]

theorem inside_of_strip {v : Survey} {strip : Option Tree} {f f' : Function} (h : strip.elim (some f) f.strip? = some f')
    (hinside : f.inside v = true) : f'.inside v = true := by
  obtain ⟨hattrs, hvis, hsig, hbody⟩ := strip_inv h
  unfold Function.inside at hinside ⊢
  rw [Bool.and_eq_true, List.all_eq_true] at hinside
  rw [hvis, hsig, hbody, Bool.and_eq_true, List.all_eq_true]
  exact ⟨fun a ha => hinside.1 a (hattrs.subset ha), hinside.2⟩

/-- All blocks but the body pass a test that the blocks of the function and of inserted code pass, if a block that declares
    nothing does and one that declares the static alone. -/
theorem Ask.Chain.inner {f g : Function} {P : List String → Bool} (h : Ask.Chain name f asks ps g) (hbody : f.body = some body)
    (hform : IsBody body) (hplans : ∀ a ∈ asks, ∀ plan, a.planned = .ok plan → plan.Passes (declaring P))
    (hnone : P [] = true) (hstatic : P [profileStatic] = true) (hown : f.isAsync = true → P f.ownNames = true)
    (hinner : f.innerBlocks.all P = true) : g.innerBlocks.all P = true := by
  induction h generalizing body with
  | done f => exact hinner
  | @next f g a as p ps ha _ ih =>
    obtain ⟨plan, hplan, hsucceeds⟩ := Ask.apply_inv ha
    obtain ⟨b, hb, hb'⟩ := hsucceeds.isBody hbody hform
    obtain ⟨hasync, hnames⟩ := hsucceeds.names hbody hform
    have hscope : f.isAsync = true → (declaring P).opens (bodyStmts body) = true ∧
        ∀ t ss, (declaring P).opens (scopedStmts (some t) ss) = true := by
      intro hf
      have hfirst := hown hf
      rw [Function.ownNames, hbody] at hfirst
      exact ⟨(opens_declaring P _).trans hfirst, fun t ss => (opens_declaring P _).trans hnone⟩
    obtain ⟨f', hstrip, hinside⟩ := hsucceeds.inside hbody hform (hplans a (by simp) plan hplan) hscope
    refine ih hb hb' (fun a' ha' => hplans a' (by simp [ha'])) (fun hasync' => ?_) ?_
    · rw [hasync] at hasync'
      rw [hnames, hasync']
      cases plan with
      | wrapCalls options => exact hown hasync'
      | profile options => exact hstatic
    · rw [← inside_declaring, hinside]
      exact inside_of_strip hstrip ((inside_declaring P f).trans hinner)

/-- Names that a block declares in code that a plan puts in. -/
def Inserted (asks : List Ask) (names : List String) : Prop :=
  ∃ a ∈ asks, ∃ plan code, a.planned = .ok plan ∧ plan.Inserts code ∧ names ∈ blocks code

theorem Ask.Chain.innerBlocks {f g : Function} (h : Ask.Chain name f asks ps g) (hbody : f.body = some body) (hform : IsBody body) :
    ∀ names ∈ g.innerBlocks, names.Nodup ∨ names ∈ f.blocks ∨ Inserted asks names := by
  classical
  let P : List String → Bool := fun names => decide (names.Nodup ∨ names ∈ f.blocks ∨ Inserted asks names)
  have hinner : g.innerBlocks.all P = true := by
    refine h.inner hbody hform (fun a ha plan hplan code hcode => ?_) ?_ ?_ (fun _ => ?_) ?_
    · rw [passes_declaring, List.all_eq_true]
      exact fun names hnames => decide_eq_true (.inr (.inr ⟨a, ha, plan, code, hplan, hcode, hnames⟩))
    · exact decide_eq_true (.inl List.nodup_nil)
    · exact decide_eq_true (.inl (List.nodup_singleton _))
    · exact decide_eq_true (.inr (.inl (List.mem_cons_self ..)))
    · exact List.all_eq_true.mpr fun names hnames => decide_eq_true (.inr (.inl (List.mem_cons_of_mem _ hnames)))
  exact fun names hnames => of_decide_eq_true (List.all_eq_true.mp hinner names hnames)

/-- Markers that have all been applied. The body declares the static once for each profile, in front of its own names, or only
    once if the function is async, for its own names are then in a block inside. Every other block declares no name twice, or
    is a block of the function or of code that a plan puts in. So a name is declared twice in a block only if one of these
    declares it twice, unless the function is not async and there are two profiles or it declares the static itself. -/
theorem Ask.Chain.declares {f g : Function} (h : Ask.Chain name f asks ps g) (hbody : f.body = some body) (hform : IsBody body) :
    g.ownNames = profiledNames f.isAsync (asks.countP Ask.profiles) f.ownNames ∧
    (∀ names ∈ g.innerBlocks, names.Nodup ∨ names ∈ f.blocks ∨ Inserted asks names) ∧
    (f.isAsync = true ∨ asks.countP Ask.profiles ≤ 1 → profileStatic ∉ f.ownNames →
      ∀ names ∈ g.blocks, names.Nodup ∨ (∃ original ∈ f.blocks, ¬original.Nodup ∧ original <:+ names) ∨ Inserted asks names) := by
  have hown := h.ownNames hbody hform
  have hinner := h.innerBlocks hbody hform
  refine ⟨hown, hinner, fun hfew hfree names hnames => ?_⟩
  rcases List.mem_cons.mp hnames with rfl | hnames
  · -- The names of the body come last among its new ones.
    rw [hown]
    rcases profiledNames_of_few hfew hfree with honce | ⟨htwice, hsuffix⟩
    · exact .inl honce
    · exact .inr (.inl ⟨f.ownNames, List.mem_cons_self .., htwice, hsuffix⟩)
  · by_cases hnodup : names.Nodup
    · exact .inl hnodup
    · rcases hinner names hnames with honce | hkept | hinserted
      · exact absurd honce hnodup
      · exact .inr (.inl ⟨names, hkept, hnodup, List.suffix_rfl⟩)
      · exact .inr (.inr hinserted)

/-- Two stacked markers: in `fn f() { const A: u8 = 1; g(A) }` the first wraps the call, the second puts its static in front of
    `A`, and no block declares a name twice. -/
theorem Ask.Chain.declares_stacked : ∃ f asks ps g,
    Function.parse (tokensOf
      "#[shallow_runtime::wrap_calls(wrapper = w)] #[profile(time_limit = 1)] fn f() \x7b const A: u8 = 1; g(A) \x7d") = .ok f ∧
    (⟨⟨true⟩, [], none⟩ : Request).markers f.attrs = asks ∧ asks.length = 2 ∧ Ask.Chain "f" f asks ps g ∧
    (ps.map (·.callsWrapped)).head? = some 1 ∧ g.ownNames = [profileStatic, "A"] ∧ ∀ names ∈ g.blocks, names.Nodup ∨
      (∃ original ∈ f.blocks, ¬original.Nodup ∧ original <:+ names) ∨ Inserted asks names := by
  obtain ⟨f, hparse, htest⟩ := @ok_of_any _ _ (Function.parse (tokensOf
      "#[shallow_runtime::wrap_calls(wrapper = w)] #[profile(time_limit = 1)] fn f() \x7b const A: u8 = 1; g(A) \x7d"))
    (fun f => f.body.isSome && !f.isAsync && f.ownNames == ["A"] &&
      ((⟨⟨true⟩, [], none⟩ : Request).markers f.attrs).length == 2 &&
      ((⟨⟨true⟩, [], none⟩ : Request).markers f.attrs).countP Ask.profiles == 1 &&
      (Ask.applyAll "f" f ((⟨⟨true⟩, [], none⟩ : Request).markers f.attrs)).toOption.any fun ps =>
        (ps.map (·.callsWrapped)).head? == some 1)
    (by decide +kernel)
  simp only [Bool.and_eq_true, Bool.not_eq_true', beq_iff_eq] at htest
  obtain ⟨⟨⟨⟨⟨hsome, hsync⟩, hown⟩, htwo⟩, hone⟩, happlied⟩ := htest
  obtain ⟨body, hbody⟩ := Option.isSome_iff_exists.mp hsome
  obtain ⟨ps, hps, hwrapped⟩ := ok_of_any happlied
  obtain ⟨g, hchain⟩ := Ask.applyAll_ok.mp hps
  obtain ⟨hnames, -, hblocks⟩ := hchain.declares hbody ((Function.form_of_parse hparse).body body hbody)
  rw [hsync, hone, hown] at hnames
  exact ⟨f, _, ps, g, hparse, rfl, htwo, hchain, beq_iff_eq.mp hwrapped, hnames,
    hblocks (.inr (Nat.le_of_eq hone)) (by simp [hown, profileStatic])⟩

/-! ### Two profiles -/

def limitArgs : List TokenTree := [.ident "time_limit" Pos.none, .punct '=' false Pos.none, .literal "1" Pos.none]

/-- `#[profile(time_limit = 1)]` -/
def limitMarker : Tree := Marker.attr .profile (fun _ => Pos.none) limitArgs

def limitOptions : ProfileOptions :=
  .ofLimit (match Plan.ofAttr .profile limitMarker with
    | .ok (.profile options) => options.timeLimit
    | _ => .zero)

def limitPrologue : List Tree :=
  [Make.itemStmt ((profileItem limitOptions "f").toOption.getD .absent), guardStmt "start"]

/-- `fn f() {}` under some attributes and with some prologues. -/
def emptyFn (attrs : List Tree) (prologues : Nat) : Function where
  attrs := attrs
  vis := .absent
  sig := .node .signature [.absent, .absent, .absent, .absent, Make.word "fn", Make.word "f", .absent,
    Make.parens [.list [], .absent], .absent, .absent]
  body := some (Make.block (List.replicate prologues limitPrologue).flatten)

theorem ofAttr_limitMarker : Plan.ofAttr .profile limitMarker = .ok (.profile limitOptions) := rfl

def emptyBlock (n : Nat) : Tree := Make.block (List.replicate n limitPrologue).flatten

theorem render_emptyFn : ∀ n < 3, ∃ s, (emptyFn [] n).render (emptyBlock n) = .ok s := by
  have hok : ∀ n < 3, ((emptyFn [] n).render (emptyBlock n)).isOk = true := by decide +kernel
  exact fun n hn => isOk_iff.mp (hok n hn)

theorem render_limitMarker {as : List Tree} {n : Nat} (h : ∃ s, (emptyFn as n).render (emptyBlock n) = .ok s) :
    ∃ s, (emptyFn (limitMarker :: as) n).render (emptyBlock n) = .ok s :=
  (render_marked (f := emptyFn as n) .profile (fun _ => Pos.none) limitArgs).mpr h

theorem transform_limit (as : List Tree) {n : Nat} (hn : n < 2) :
    Plan.transform (.profile limitOptions) "f" (emptyFn as n) = .ok (emptyFn as (n + 1), 0) := by
  obtain rfl | rfl : n = 0 ∨ n = 1 := by omega
  · rfl
  · rfl

/-- Applying the first marker leaves the others, and one prologue more. -/
theorem apply_limitMarker (as : List Tree) (n : Nat) (hn : n < 2) (hgrouped : (emptyFn as (n + 1)).grouped = emptyFn as (n + 1))
    (hback : (emptyFn as (n + 1)).readsBack = true) (hbefore : ∃ s, (emptyFn as n).render (emptyBlock n) = .ok s)
    (hafter : ∃ s, (emptyFn as (n + 1)).render (emptyBlock (n + 1)) = .ok s) :
    ∃ p, (Ask.marked .profile limitMarker).apply "f" (emptyFn (limitMarker :: as) n) = .ok p ∧ p.item = emptyFn as (n + 1) := by
  obtain ⟨before, hbefore⟩ := hbefore
  obtain ⟨after, hafter⟩ := hafter
  obtain ⟨p, hp, hitem⟩ : ∃ p, rebuild (emptyFn as n) "f" (.profile limitOptions) (emptyBlock n) before = .ok p ∧
      p.item = emptyFn as (n + 1) :=
    ⟨_, rebuild_eq_ok.mpr ⟨_, _, after, transform_limit as hn, hback, by rw [hgrouped]; exact hafter, rfl⟩, hgrouped⟩
  have hprobe : probe (emptyFn as n) "f" (.profile limitOptions) none = .ok p := (probe_ok rfl rfl).mpr ⟨before, hbefore, hp⟩
  obtain ⟨text, htext⟩ := render_limitMarker ⟨before, hbefore⟩
  have hmarked := (probe_marked_ok (f := emptyFn as n) .profile (fun _ => Pos.none) limitArgs rfl).mpr
    ⟨text, p, htext, hprobe, rfl⟩
  exact ⟨_, (Ask.apply_marked ofAttr_limitMarker ..).trans hmarked, hitem⟩

/-- Of a function that is not async the second marker finds the static of the first in the body. -/
theorem Ask.Chain.declares_twice : ∃ ps, Ask.Chain "f" (emptyFn [limitMarker, limitMarker] 0)
      [.marked .profile limitMarker, .marked .profile limitMarker] ps (emptyFn [] 2) ∧
    (∀ names ∈ (emptyFn [limitMarker, limitMarker] 0).blocks, names.Nodup) ∧
    (emptyFn [] 2).ownNames = [profileStatic, profileStatic] := by
  obtain ⟨p, hp, hitem⟩ := apply_limitMarker [limitMarker] 0 (by decide) rfl (by decide +kernel)
    (render_limitMarker (render_emptyFn 0 (by decide))) (render_limitMarker (render_emptyFn 1 (by decide)))
  obtain ⟨q, hq, hitem'⟩ := apply_limitMarker [] 1 (by decide) rfl (by decide +kernel) (render_emptyFn 1 (by decide))
    (render_emptyFn 2 (by decide))
  refine ⟨[p, q], .next hp ?_, by decide, rfl⟩
  rw [hitem]
  refine .next hq ?_
  rw [hitem']
  exact .done _

end CallProbe.Probe
