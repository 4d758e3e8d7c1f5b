import CallProbe.Proofs.Grammar.Nesting
import CallProbe.Proofs.Names.Numbers
import CallProbe.Proofs.Names.Written
import CallProbe.Proofs.Wrap.Names

/-! # Callees as they are read

The name of an expression goes on from the expression in front of it, and so on: its `spine`. `reach_reads` says what the
grammar makes sure of along the spine of every expression that it reads: a path has a name other than `_`, and what is
behind a dot is a name or a number. -/

namespace CallProbe.Call

open Source Source.Parse Probe.CallOptions

/-! ### Spines -/

/-- The expression that the name of an expression goes on from, by its kind and its children behind the attributes. -/
def front? : Kind → List Tree → Option Tree
  | .fieldExpr, [base, _, _] => some base
  | .indexExpr, [base, .group _ _ [_] _] => some base
  | .callExpr, [callee, _] => some callee
  | .methodCallExpr, [receiver, _, _, _, _] => some receiver
  | .parenExpr, [.group _ _ [e] _] => some e
  | .referenceExpr, [_, _, e] => some e
  | _, _ => none

theorem sizeOf_front? {k : Kind} {cs : List Tree} {e : Tree} (h : front? k cs = some e) : sizeOf e < sizeOf cs := by
  unfold front? at h
  split at h
  all_goals
    cases h
    try simp
    try omega

/-- An expression and those that its name goes on from. -/
def spine : Tree → List Tree
  | .node k (attrs :: cs) =>
    .node k (attrs :: cs) :: match h : front? k cs with
      | some e =>
        have : sizeOf e < sizeOf cs := sizeOf_front? h
        spine e
      | none => []
  | t => [t]
termination_by t => sizeOf t
decreasing_by
  simp
  omega

variable {k : Kind} {attrs e : Tree} {cs : List Tree}

theorem spine_of_front (h : front? k cs = some e) :
    spine (.node k (attrs :: cs)) = .node k (attrs :: cs) :: spine e := by
  rw [spine]
  split <;> simp_all

theorem spine_of_none (h : front? k cs = none) : spine (.node k (attrs :: cs)) = [.node k (attrs :: cs)] := by
  rw [spine]
  split <;> simp_all

theorem self_mem_spine (t : Tree) : t ∈ spine t := by
  unfold spine
  split <;> simp

/-- The spine goes on in the same way from everything on it. -/
theorem spine_subset {t c : Tree} (hc : c ∈ spine t) : spine c ⊆ spine t := by
  fun_induction spine t with
  | case1 k attrs cs ih =>
    rcases List.mem_cons.mp hc with rfl | hc
    · rw [spine]
      exact fun _ h => h
    · split at hc
      · rename_i e he
        exact List.subset_cons_of_subset _ (ih e he hc)
      · cases hc
  | case2 t ht =>
    rw [List.mem_singleton.mp hc, spine]
    · exact fun _ h => h
    · exact ht

/-! ### What is read along a spine -/

/-- A text that is a name. -/
def IsName (s : String) : Prop := ∃ n : Pattern.Name, n.text = s

/-- A path as it is read has a name, and is not `_` alone. -/
def IsPath (p : Tree) : Prop := Target.pathNames p ≠ [] ∧ Target.pathNames p ≠ ["_"]

/-- What the grammar makes sure of for an expression of a kind, by its children behind the attributes. -/
def Fits : Kind → List Tree → Prop
  | .pathExpr, [p] => IsPath p
  | .fieldExpr, [_, _, m] => isNamed m = true ∨ IsName m.text
  | _, _ => True

/-- An expression as it is read, with those on its spine. -/
def Read (t : Tree) : Prop := ∀ k attrs cs, .node k (attrs :: cs) ∈ spine t → Fits k cs

theorem read_of_front (h : front? k cs = some e) (hfits : Fits k cs) (he : Read e) : Read (.node k (attrs :: cs)) := by
  intro l a ds hmem
  rw [spine_of_front h] at hmem
  rcases List.mem_cons.mp hmem with heq | hmem
  · cases heq
    exact hfits
  · exact he l a ds hmem

theorem read_of_none (h : front? k cs = none) (hfits : Fits k cs) : Read (.node k (attrs :: cs)) := by
  intro l a ds hmem
  rw [spine_of_none h] at hmem
  cases List.mem_singleton.mp hmem
  exact hfits

theorem fits_of_kind (hk : isSpine k = false) : Fits k cs ∧ front? k cs = none := by
  unfold Fits front?
  constructor
  all_goals
    split
    all_goals trivial

theorem read_of_kind (hk : isSpine k = false) : Read (.node k cs) := by
  cases cs with
  | nil =>
    intro l a ds hmem
    rw [spine] at hmem
    · cases List.mem_singleton.mp hmem
    · simp
  | cons attrs cs => exact read_of_none (fits_of_kind hk).2 (fits_of_kind hk).1

/-- The attributes of an expression say nothing about its name. -/
theorem read_attrs {a b : Tree} (h : Read (.node k (a :: cs))) : Read (.node k (b :: cs)) := by
  have hfits := h k a cs (self_mem_spine _)
  cases hfront : front? k cs with
  | none => exact read_of_none hfront hfits
  | some e =>
    refine read_of_front hfront hfits fun l c ds hmem => h l c ds ?_
    rw [spine_of_front hfront]
    exact List.mem_cons_of_mem _ hmem

theorem read_addAttrs {t : Tree} (h : Read t) (attrs : Tree) : Read (t.addAttrs attrs) := by
  unfold Tree.addAttrs
  split
  · exact read_attrs h
  · exact h

/-! ### Names and numbers -/

theorem anyWord_ok {ts rest : List TokenTree} {t : Tree} (h : anyWord ts = .ok (t, rest)) :
    ∃ w p, ts = .ident w p :: rest ∧ t = .leaf (.word w p) := by
  obtain ⟨ts', mid, hget, h⟩ := bind_ok h
  cases hget
  split at h
  · obtain ⟨⟨⟩, mid', hset, h⟩ := bind_ok h
    cases hset
    obtain ⟨rfl, rfl⟩ := pure_ok h
    exact ⟨_, _, rfl, rfl⟩
  · cases h

/-- A word that is a name of the grammar; `_` is none. -/
def IsWord (t : Tree) : Prop := ∃ w p, t = .leaf (.word w p) ∧ w ≠ "_"

theorem word_of_test {test : List TokenTree → Bool} (htest : ∀ p ts, test (.ident "_" p :: ts) = false)
    {ts rest : List TokenTree} {t : Tree} (hts : test ts = true) (h : anyWord ts = .ok (t, rest)) : IsWord t := by
  obtain ⟨w, p, rfl, rfl⟩ := anyWord_ok h
  refine ⟨w, p, rfl, ?_⟩
  rintro rfl
  rw [htest] at hts
  cases hts

theorem name_gives : Gives IsWord name := by
  rintro ts t rest h
  obtain ⟨ts', mid, hget, h⟩ := bind_ok h
  cases hget
  split at h
  · exact word_of_test (fun _ _ => rfl) ‹_› h
  · cases h

theorem isName_toString (n : Nat) : IsName (toString n) := by
  have hdigit : ∀ c ∈ Nat.toDigits 10 n, Pattern.isNameChar c = true := by
    intro c hc
    have hc : c.isDigit = true := Nat.isDigit_of_mem_toDigits (by decide) (by decide) hc
    have hascii : c.toNat < 128 := by
      simp only [Char.isDigit, Bool.and_eq_true, decide_eq_true_eq] at hc
      have := hc.2
      change c.val.toNat < 128
      have : c.val.toNat ≤ 57 := this
      omega
    simp [Pattern.isNameChar, Text.isAlphanumeric, hascii, Char.isAlphanum, hc]
  exact ⟨⟨Nat.toDigits 10 n, Nat.toDigits_ne_nil, hdigit⟩, rfl⟩

theorem isName_of_fieldDigits? {t digits : String} (h : fieldDigits? t = some digits) : IsName digits := by
  unfold fieldDigits? at h
  split at h
  · rename_i d hint
    split at h
    · cases h
      obtain ⟨n, rfl⟩ := Literal.digits_of_int hint
      exact isName_toString n
    · cases h
  · cases h

theorem member_gives : Gives (fun m => isNamed m = true ∨ IsName m.text) member := by
  refine .bind fun ts => .ite ?_ ?_
  · rintro us m rest h
    obtain ⟨w, p, rfl, -⟩ := name_gives us m rest h
    exact .inl rfl
  · refine .bind fun ts => ?_
    split
    · split
      · rename_i hdigits
        exact .bind fun _ => .pure (.inr (isName_of_fieldDigits? hdigits))
      · exact .refuse
    · exact .refuse

theorem isName_of_fieldsOfNumber {t : String} {digits : List String} {dotted : Bool}
    (h : fieldsOfNumber t = some (digits, dotted)) : ∀ d ∈ digits, IsName d := by
  have hall : ∀ (parts digits : List String), parts.mapM fieldDigits? = some digits → ∀ d ∈ digits, IsName d := by
    intro parts
    induction parts with
    | nil => simp
    | cons part parts ih =>
      intro digits h
      simp only [List.mapM_cons, Option.bind_eq_bind, Option.bind_eq_some_iff, Option.pure_def, Option.some.injEq] at h
      obtain ⟨d, hd, ds, hds, rfl⟩ := h
      exact List.forall_mem_cons.mpr ⟨isName_of_fieldDigits? hd, ih ds hds⟩
  simp only [fieldsOfNumber, Option.map_eq_some_iff, Prod.mk.injEq] at h
  obtain ⟨ds, hds, rfl, -⟩ := h
  exact hall _ _ hds

/-! ### Paths -/

/-- A segment of a path that starts with a word. -/
def IsSegment (s : Tree) : Prop := ∃ n args, s = .node .segment [n, args] ∧ IsWord n

theorem segment_gives (args : Parser Tree) (inExpr : Bool) : Gives IsSegment (segmentWith args inExpr) := by
  have hargs {n : Tree} (hn : IsWord n) (c : List TokenTree → Bool) : Gives IsSegment (do
      if c (← get) then return .node .segment [n, ← args] else return .node .segment [n, .absent]) :=
    .bind fun ts => .ite (.bind fun as => .pure ⟨n, as, rfl, hn⟩) (.pure ⟨n, _, rfl, hn⟩)
  rintro ts s rest h
  obtain ⟨ts', mid, hget, h⟩ := bind_ok h
  cases hget
  split at h
  · rename_i hfirst
    obtain ⟨n, mid, hn, h⟩ := bind_ok h
    obtain ⟨rfl, -⟩ := pure_ok h
    exact ⟨n, _, rfl, word_of_test (fun _ _ => rfl) hfirst hn⟩
  · split at h
    · obtain ⟨n, mid, hn, h⟩ := bind_ok h
      exact hargs (word_of_test (fun _ _ => rfl) ‹_› hn) _ _ _ _ h
    · obtain ⟨n, mid, hn, h⟩ := bind_ok h
      exact hargs (name_gives _ _ _ hn) _ _ _ _ h

theorem segmentNames_first (n as : Tree) (rest : List Tree) :
    ∃ names, Target.segmentNames (.list (.node .segment [n, as] :: rest)) = n.text :: names := by
  cases rest with
  | nil => exact ⟨[], rfl⟩
  | cons sep rest => exact ⟨_, rfl⟩

theorem path_gives (r : Reach) (inExpr : Bool) : Gives IsPath (path r inExpr) := by
  refine .bind fun lead => .bind_of (segment_gives _ inExpr) fun first hfirst => .bind fun more => .pure ?_
  obtain ⟨n, as, rfl, w, p, rfl, hw⟩ := hfirst
  obtain ⟨names, hnames⟩ := segmentNames_first (.leaf (.word w p)) as more
  rw [IsPath, Target.pathNames, hnames]
  exact ⟨by simp, fun h => hw (List.cons.inj h).1⟩

theorem anyPath_gives (r : Reach) (inExpr : Bool) : Gives IsPath (anyPath r inExpr) := by
  refine .bind fun ts => .ite (.bind fun lt => .bind fun ty => .bind fun as_ => .bind fun inner => .bind fun gt =>
    .bind fun colons => .bind_of (segment_gives _ inExpr) fun first hfirst => .bind fun more => .pure ?_)
    (path_gives r inExpr)
  obtain ⟨n, as, rfl, w, p, rfl, hw⟩ := hfirst
  obtain ⟨names, hnames⟩ := segmentNames_first (.leaf (.word w p)) as more.flatten
  have hsegments (before : List String) : before ++ w :: names ≠ [] ∧ before ++ w :: names ≠ ["_"] := by
    cases before with
    | nil => exact ⟨by simp, fun h => hw (List.cons.inj h).1⟩
    | cons b before => exact ⟨by simp, fun h => by simp at h⟩
  rw [IsPath]
  unfold Target.pathNames
  split
  · rename_i he
    cases he
  · rename_i he
    cases he
    rw [hnames]
    exact hsegments _
  · rename_i he
    cases he
    rw [hnames]
    exact hsegments []
  · rename_i hother
    exact absurd rfl (hother _ _ _ _ _ _ _)

/-! ### Rules for expressions -/

/-- Whether a goal gives an expression, from expressions as they are read. -/
def Asks : Goal → Prop
  | .expr _ | .unary _ | .operand _ _ | .earlyExpr => True
  | .climb left _ _ => Read left
  | .trailers base => Read base
  | _ => False

/-- Whether expressions are given as they are read. -/
def GivesRead (r : Reach) : Prop := ∀ goal, Asks goal → Gives Read (r goal)

theorem Gives.throw {α : Type} {P : α → Prop} (fault : Fault) : Gives P (throw fault : Parser α) := by
  rintro ts a rest h
  cases h

/-- A check that may refuse the tokens. -/
theorem Gives.check {α β : Type} {P : β → Prop} {c : Prop} [Decidable c] {f : α → Parser β} {p : Parser β}
    (h : Gives P p) : Gives P (if c then (Parse.refuse : Parser α) >>= f else p) :=
  .ite (fun _ _ _ h => by cases h) h

/-- An expression of a kind that has no name. -/
theorem gives_kind {k : Kind} (hk : isSpine k = false) (cs : List Tree) : Gives Read (pure (.node k cs) : Parser Tree) :=
  .pure (read_of_kind hk)

variable {r : Reach} (hr : GivesRead r)

theorem passed_gives (start : List TokenTree) : Gives Read (passed .verbatimExpr start) :=
  .bind fun _ => gives_kind rfl _

section
include hr

theorem climb_gives {left : Tree} (hleft : Read left) (structs : Bool) (base : Precedence) :
    Gives Read (climb r left structs base) := by
  refine .bind fun ts => .ite (.pure hleft) ?_
  split
  · refine .ite (.pure hleft) (.ite (Gives.throw _) (.bind fun o => .bind fun right => ?_))
    exact hr (.climb _ structs base) (read_of_kind rfl)
  · refine .ite ?assign (.ite ?range (.ite ?cast (.pure hleft)))
    case assign => exact .bind fun eq => .bind fun right => hr (.climb _ structs base) (read_of_kind rfl)
    case range => exact .bind fun stop => gives_kind rfl _
    case cast =>
      exact .bind fun as_ => .bind fun ty => .bind fun ts => Gives.check (hr (.climb _ structs base) (read_of_kind rfl))

theorem operandFuel_gives (structs : Bool) (after : Precedence) (fuel : Nat) {e : Tree} (he : Read e) :
    Gives Read (operandFuel r structs after fuel e) := by
  induction fuel generalizing e with
  | zero => exact .pure he
  | succ fuel ih =>
    refine .bind fun before => .ite (.bind_of (hr (.climb e structs _) he) fun e' he' => ?_) (.pure he)
    exact .bind fun ts => .ite (.pure he') (ih he')

theorem operand_gives (structs : Bool) (after : Precedence) : Gives Read (operand r structs after) :=
  .bind_of (hr (.unary structs) trivial) fun _ he => .bind fun _ => operandFuel_gives hr structs after _ he

end

theorem afterDot_gives (r : Reach) {base : Tree} (hbase : Read base) (dot : Tree) : Gives Read (afterDot r base dot) := by
  refine .bind fun ts => .ite (.bind fun _ => gives_kind rfl _) (.bind_of member_gives fun m hm => .bind fun ts => ?_)
  refine .ite ?turbofish (.ite ?call (.pure (read_of_front rfl hm hbase)))
  case turbofish =>
    refine .bind fun colons => .bind fun ts => Gives.check (.bind fun args => ?_)
    split
    · exact .bind fun _ => .pure (read_of_front rfl trivial hbase)
    · exact .refuse
  case call => exact .bind fun args => .pure (read_of_front rfl trivial hbase)

theorem read_numberedFields {base : Tree} (hbase : Read base) (dot : Tree) (pos : Pos) {digits : List String}
    (hdigits : ∀ d ∈ digits, IsName d) : Read (numberedFields base dot pos digits) := by
  unfold numberedFields
  induction digits generalizing base dot with
  | nil => exact hbase
  | cons d digits ih =>
    obtain ⟨hd, hdigits⟩ := List.forall_mem_cons.mp hdigits
    have hfits : Fits .fieldExpr [base, dot, .leaf (.literal d pos)] := .inr hd
    exact ih (read_of_front rfl hfits hbase) _ hdigits

theorem dotted_gives (r : Reach) {base : Tree} (hbase : Read base) : Gives Read (dotted r base) := by
  refine .bind fun dot => .bind fun ts => .ite ?_ (afterDot_gives r hbase dot)
  split
  · rename_i t p rest
    split
    · exact .refuse
    · rename_i hfields
      have hread := read_numberedFields hbase dot p (isName_of_fieldsOfNumber hfields)
      exact .bind fun _ => .ite (afterDot_gives r hread _) (.pure hread)
  · exact .refuse

section
include hr

theorem trailers_gives {base : Tree} (hbase : Read base) : Gives Read (trailers r base) := by
  refine .bind fun ts => .ite ?call (.ite ?dot (.ite ?index (.ite ?question (.pure hbase))))
  case call => exact .bind fun args => hr (.trailers _) (read_of_front rfl trivial hbase)
  case dot => exact .bind_of (dotted_gives r hbase) fun e he => hr (.trailers e) he
  case index =>
    have hkey : Gives (fun cs => ∃ key, cs = [key]) (do return [← r (.expr true)]) := .bind fun key => .pure ⟨key, rfl⟩
    refine .bind_of (.group hkey) fun key hkey => ?_
    obtain ⟨o, _, c, rfl, key, rfl⟩ := hkey
    exact hr (.trailers _) (read_of_front rfl trivial hbase)
  case question => exact .bind fun q => hr (.trailers _) (read_of_kind rfl)

end

theorem pathExpr_gives (r : Reach) (structs : Bool) : Gives Read (pathExpr r structs) := by
  refine .bind_of (anyPath_gives r true) fun p hp => .bind fun ts => ?_
  refine .ite ?call (.ite ?fields (.pure (read_of_none rfl hp)))
  case call => exact .bind fun _ => gives_kind rfl _
  case fields => exact .bind fun _ => gives_kind rfl _

theorem separatedFuel_gives {P : Tree → Prop} {stop : List TokenTree → Bool} {sep : String} {p : Parser Tree}
    (hp : Gives P p) (fuel : Nat) : Gives (fun ts => ∀ t ∈ ts.head?, P t) (separatedFuel stop sep p fuel) := by
  cases fuel with
  | zero => exact .pure (by simp)
  | succ fuel =>
    refine .bind fun ts => .ite (.pure (by simp)) (.bind_of hp fun a ha => .bind fun ts => .ite (.pure ?_) ?_)
    · simpa using ha
    · exact .bind fun s => .bind fun as => .pure (by simpa using ha)

theorem within_gives {α : Type} {P : α → Prop} {p : Parser α} (hp : Gives P p) (content : List TokenTree) :
    Gives P (within content p) := by
  rintro ts a rest h
  rw [within] at h
  split at h <;> cases h
  exact hp _ _ _ ‹_›

section
include hr

theorem parenExpr_gives : Gives Read (parenExpr r) := by
  have helems : Gives (fun t => ∃ ts, t = .node .list ts ∧ ∀ e ∈ ts.head?, Read e) (commas (r (.expr true))) :=
    .bind fun ts => .bind_of (separatedFuel_gives (hr (.expr true) trivial) _) fun ts hts => .pure ⟨ts, rfl, hts⟩
  refine .bind fun ts => ?_
  split
  · refine .bind fun _ => .bind_of (within_gives helems _) fun elems helems => ?_
    obtain ⟨ts, rfl, hts⟩ := helems
    split
    · rename_i e heq
      cases heq
      exact .pure (read_of_front rfl trivial (hts e rfl))
    · exact gives_kind rfl _
  · exact .refuse

end

/-! ### Expressions without a name -/

theorem arrayExpr_gives (r : Reach) : Gives Read (arrayExpr r) := by
  refine .bind fun ts => ?_
  split
  · refine .bind fun _ => within_gives (.bind fun ts => .ite (gives_kind rfl _) ?_) _
    refine .bind fun first => .bind fun ts => ?_
    refine .ite (.bind fun semi => .bind fun _ => gives_kind rfl _) (.bind fun ts => .ite (gives_kind rfl _) ?_)
    exact .bind fun comma => .bind fun more => gives_kind rfl _
  · exact .refuse

theorem closure_gives (r : Reach) (structs : Bool) : Gives Read (closure r structs) := by
  refine .bind fun lifetimes => .bind fun c => .bind fun s => .bind fun a => .bind fun m => .bind fun or1 =>
    .bind fun params => .bind fun or2 => .bind fun output => .ite ?_ ?_
  all_goals exact .bind fun body => gives_kind rfl _

theorem ifExpr_gives (r : Reach) : Gives Read (ifExpr r) := by
  refine .bind fun ts => ?_
  unfold ifFuel
  exact .bind fun i => .bind fun cond => .bind fun body => .bind fun other => gives_kind rfl _

theorem whileExpr_gives (r : Reach) (label : Tree) : Gives Read (whileExpr r label) :=
  .bind fun _ => .bind fun _ => .bind fun _ => gives_kind rfl _

theorem forExpr_gives (r : Reach) (label : Tree) : Gives Read (forExpr r label) :=
  .bind fun _ => .bind fun _ => .bind fun _ => .bind fun _ => .bind fun _ => gives_kind rfl _

theorem loopExpr_gives (r : Reach) (label : Tree) : Gives Read (loopExpr r label) :=
  .bind fun _ => .bind fun _ => gives_kind rfl _

theorem matchExpr_gives (r : Reach) : Gives Read (matchExpr r) :=
  .bind fun _ => .bind fun _ => .bind fun _ => gives_kind rfl _

theorem wordBlock_gives (r : Reach) (w : String) {kind : Kind} (hk : isSpine kind = false) (inner : Bool) :
    Gives Read (wordBlock r w kind inner) :=
  .bind fun _ => .bind fun _ => gives_kind hk _

theorem constBlock_gives (r : Reach) : Gives Read (constBlock r) := .bind fun _ => .bind fun _ => gives_kind rfl _

theorem labeled_gives (r : Reach) : Gives Read (labeled r) := by
  refine .bind fun l => .bind fun colon => .bind fun ts => .ite (whileExpr_gives r _) (.ite (forExpr_gives r _)
    (.ite (loopExpr_gives r _) (.ite (.bind fun _ => gives_kind rfl _) ?_)))
  rintro ts t rest h
  cases h

theorem blockLike?_gives (r : Reach) : Gives (fun e => ∀ t ∈ e, Read t) (blockLike? r) := by
  have some_gives {p : Parser Tree} (hp : Gives Read p) : Gives (fun e => ∀ t ∈ e, Read t) (do return some (← p)) :=
    .bind_of hp fun t ht => .pure (by simpa using ht)
  refine .bind fun ts => .ite (some_gives (ifExpr_gives r)) (.ite (some_gives (whileExpr_gives r _))
    (.ite (some_gives (forExpr_gives r _)) (.ite (some_gives (loopExpr_gives r _))
    (.ite (some_gives (matchExpr_gives r)) (.ite (some_gives (wordBlock_gives r _ rfl _))
    (.ite (some_gives (wordBlock_gives r _ rfl _)) (.ite (some_gives (constBlock_gives r)) (.ite ?block
    (.ite (some_gives (labeled_gives r)) (.pure (by simp)))))))))))
  exact .bind fun b => .pure (by simpa using read_of_kind rfl)

theorem read_closeRange {t : Tree} (h : Read t) : Read (closeRange t) := by
  unfold closeRange
  split
  · exact read_of_front rfl trivial (read_of_kind rfl)
  · exact h

/-! ### All expressions -/

section
include hr

theorem atom_gives (structs : Bool) : Gives Read (atom r structs) := by
  have hresult (w : String) {k : Kind} (hk : isSpine k = false) : Gives Read (do
      let w ← word w
      return .node k [.noAttrs, w, ← whenAhead exprAhead (r (.expr true))]) :=
    .bind fun w => .bind fun value => gives_kind hk _
  refine .bind fun ts => .ite (.bind fun _ => gives_kind rfl _) (.ite ?future (.ite (wordBlock_gives r _ rfl _)
    (.ite (closure_gives r _) (.ite ?builtin (.ite (pathExpr_gives r _) (.ite (parenExpr_gives hr) (.ite ?leave
    (.ite (.bind fun _ => .bind fun _ => gives_kind rfl _) (.ite (hresult _ rfl) (.ite ?jump (.ite (arrayExpr_gives r)
    (.ite ?condition (.ite (ifExpr_gives r) (.ite (whileExpr_gives r _) (.ite (forExpr_gives r _) (.ite (loopExpr_gives r _)
    (.ite (matchExpr_gives r) (.ite (hresult _ rfl) (.ite (wordBlock_gives r _ rfl _) (.ite (constBlock_gives r)
    (.ite (.bind fun _ => gives_kind rfl _) (.ite ?range (.ite (.bind fun _ => gives_kind rfl _)
    (.ite (labeled_gives r) ?none))))))))))))))))))))))))
  case future => exact .bind fun a => .bind fun m => .bind fun body => gives_kind rfl _
  case builtin =>
    exact .bind fun _ => .bind fun _ => .bind fun _ => .bind fun ts => Gives.check (.bind fun _ => passed_gives _)
  case leave =>
    refine .bind fun b => .bind fun l => .bind fun ts => .ite ?_ (.bind fun value => gives_kind rfl _)
    exact .bind fun _ => .bind fun _ => .refuse
  case jump => exact .bind fun _ => .bind fun _ => passed_gives _
  case condition =>
    exact .bind fun l => .bind fun pat => .bind fun eq => .bind fun value => .bind fun _ => gives_kind rfl _
  case range => exact .bind fun stop => gives_kind rfl _
  case none =>
    rintro ts t rest h
    cases h

theorem unary_gives (structs : Bool) : Gives Read (unary r structs) := by
  refine .bind fun start => .bind fun attrs => .bind fun ts => .ite ?reference ?_
  case reference =>
    refine .bind fun amp => .bind fun ts => .ite (.bind fun raw => .bind fun m => .bind fun _ => gives_kind rfl _) ?_
    exact .bind fun m => .bind_of (hr (.unary structs) trivial) fun e he => .pure (read_of_front rfl trivial he)
  split
  · exact .bind fun o => .bind fun _ => gives_kind rfl _
  · refine .bind_of (atom_gives hr structs) fun a ha => .bind_of (hr (.trailers a) ha) fun e he => ?_
    exact .ite (passed_gives _) (Gives.check (.pure (read_addAttrs he attrs)))

theorem earlyExpr_gives : Gives Read (earlyExpr r) := by
  refine .bind fun attrs => .bind_of (blockLike?_gives r) fun e he => ?_
  split
  · refine .bind_of (hr (.unary true) trivial) fun u hu => ?_
    refine .bind_of (hr (.climb (u.addAttrs attrs) true .jump) (read_addAttrs hu attrs)) fun t ht => ?_
    exact .pure (read_closeRange ht)
  · rename_i b
    have hb : Read b := he b rfl
    refine .bind fun ts => .ite (.bind_of (hr (.trailers b) hb) fun u hu => ?_) (.pure (read_addAttrs hb attrs))
    exact hr (.climb (u.addAttrs attrs) true .jump) (read_addAttrs hu attrs)

theorem expr_gives (structs : Bool) : Gives Read (expr r structs) :=
  .bind_of (hr (.unary structs) trivial) fun u hu => hr (.climb u structs .jump) hu

/-- If all that a rule reaches is as it is read, so is what the rule gives. -/
theorem rule_givesRead : GivesRead (Grammar.rule r) := by
  intro goal hasks
  cases goal with
  | expr structs => exact expr_gives hr structs
  | unary structs => exact unary_gives hr structs
  | climb left structs base => exact climb_gives hr hasks structs base
  | earlyExpr => exact earlyExpr_gives hr
  | operand structs after => exact operand_gives hr structs after
  | trailers base => exact trailers_gives hr hasks
  | _ => cases hasks

end

theorem run_givesRead (n : Nat) : GivesRead (Grammar.run n) := by
  induction n with
  | zero => exact fun _ _ => .refuse
  | succ n ih => exact rule_givesRead ih

/-- Along the spine of an expression that the grammar reads, paths have a name and fields a name or a number. -/
theorem reach_reads : GivesRead Grammar.reach := fun goal hasks ts => run_givesRead (Grammar.depth ts) goal hasks ts

end CallProbe.Call
