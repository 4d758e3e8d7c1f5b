import CallProbe.Probe.Instrument

/-! # Two readers of functions

A function is read in two ways: alone, by a reader of its own, and as an item of a file. Both read the same parts:
`item_fnItem` takes the reading of a function item apart, and `parse_of_itemOf` and `parseFile_marked` put the parts
together again, once as a function alone and once as the item of a file behind its marker. What differs is what becomes
of the inner attributes of the body: alone they are read as outer ones, in a file they stay inner. -/

namespace CallProbe.Source.Parse

/-! ### What a parser gives -/

variable {α β : Type}

theorem bind_ok {p : Parser α} {f : α → Parser β} {ts rest : List TokenTree} {b : β}
    (h : (p >>= f) ts = .ok (b, rest)) : ∃ a mid, p ts = .ok (a, mid) ∧ f a mid = .ok (b, rest) := by
  change (p ts).bind (fun r => f r.1 r.2) = .ok (b, rest) at h
  cases hp : p ts with
  | error e =>
    rw [hp] at h
    cases h
  | ok r =>
    rw [hp] at h
    exact ⟨r.1, r.2, rfl, h⟩

theorem bind_of_ok {p : Parser α} {f : α → Parser β} {ts mid : List TokenTree} {a : α} (h : p ts = .ok (a, mid)) :
    (p >>= f) ts = f a mid := by
  change (p ts).bind (fun r => f r.1 r.2) = f a mid
  rw [h]
  rfl

/-- Looking at the tokens takes none. -/
theorem bind_get {f : List TokenTree → Parser β} {ts : List TokenTree} :
    ((get : Parser (List TokenTree)) >>= f) ts = f ts ts := rfl

theorem pure_ok {ts rest : List TokenTree} {a b : α} (h : (pure a : Parser α) ts = .ok (b, rest)) : a = b ∧ ts = rest := by
  cases h
  exact ⟨rfl, rfl⟩

/-- Whatever a parser gives has a property. -/
def Gives (P : α → Prop) (p : Parser α) : Prop := ∀ ts a rest, p ts = .ok (a, rest) → P a

theorem Gives.holds {P : α → Prop} {p : Parser α} {ts rest : List TokenTree} {a : α} (h : p ts = .ok (a, rest))
    (hp : Gives P p) : P a :=
  hp ts a rest h

theorem Gives.pure {P : α → Prop} {a : α} (h : P a) : Gives P (pure a : Parser α) := by
  rintro ts b rest hb
  obtain ⟨rfl, -⟩ := pure_ok hb
  exact h

theorem Gives.refuse {P : α → Prop} : Gives P (refuse : Parser α) := by
  rintro ts a rest h
  cases h

theorem Gives.bind {P : β → Prop} {p : Parser α} {f : α → Parser β} (h : ∀ a, Gives P (f a)) : Gives P (p >>= f) := by
  rintro ts b rest hb
  obtain ⟨a, mid, -, hf⟩ := bind_ok hb
  exact h a mid b rest hf

/-- What is given may depend on what was given before. -/
theorem Gives.bind_of {P : β → Prop} {Q : α → Prop} {p : Parser α} {f : α → Parser β} (hp : Gives Q p)
    (h : ∀ a, Q a → Gives P (f a)) : Gives P (p >>= f) := by
  rintro ts b rest hb
  obtain ⟨a, mid, ha, hf⟩ := bind_ok hb
  exact h a (hp ts a mid ha) mid b rest hf

theorem Gives.ite {P : α → Prop} {c : Prop} [Decidable c] {p q : Parser α} (hp : Gives P p) (hq : Gives P q) :
    Gives P (if c then p else q) := by
  split
  · exact hp
  · exact hq

/-- Two ways to the same continuation. -/
theorem Gives.branch {P : β → Prop} {c : Prop} [Decidable c] {p q : Parser α} {f : α → Parser β}
    (h : ∀ a, Gives P (f a)) : Gives P (if c then p >>= f else q >>= f) :=
  .ite (.bind h) (.bind h)

/-- Something that may be done before the continuation. -/
theorem Gives.before {P : β → Prop} {c : Prop} [Decidable c] {q : Parser Unit} {f : Unit → Parser β}
    (h : ∀ u, Gives P (f u)) : Gives P (if c then q >>= f else f ()) :=
  .ite (.bind h) (h ())

theorem Gives.repeatWhile {P : α → Prop} {test : List TokenTree → Bool} {p : Parser α} (h : Gives P p) :
    Gives (∀ a ∈ ·, P a) (repeatWhile test p) := by
  have hfuel : ∀ fuel, Gives (∀ a ∈ ·, P a) (repeatFuel test p fuel) := by
    intro fuel
    induction fuel with
    | zero => exact .pure (by simp)
    | succ fuel ih =>
      refine .bind fun ts => .ite (.bind_of h fun a ha => .bind_of ih fun as has => .pure ?_) (.pure (by simp))
      rintro b hb
      rcases List.mem_cons.mp hb with rfl | hb
      · exact ha
      · exact has b hb
  exact .bind fun ts => hfuel _

/-- The content of a bracketed part is what is given for it. -/
theorem Gives.group {P : List Tree → Prop} {d : Delimiter} {p : Parser (List Tree)} (h : Gives P p) :
    Gives (fun t => ∃ o content c, t = .group d o content c ∧ P content) (group d p) := by
  rintro ts t rest ht
  obtain ⟨ts', mid, hget, ht⟩ := bind_ok ht
  split at ht
  · rename_i e o content c after
    split at ht
    · obtain ⟨⟨⟩, mid', hset, ht⟩ := bind_ok ht
      obtain ⟨cs, mid'', hcs, ht⟩ := bind_ok ht
      obtain ⟨rfl, -⟩ := pure_ok ht
      refine ⟨o, cs, c, rfl, ?_⟩
      rw [within] at hcs
      split at hcs
      · rename_i a hp
        cases hcs
        exact h _ _ _ hp
      · cases hcs
      · cases hcs
    · cases ht
  · cases ht

/-! ### Attributes -/

variable {reach : Reach}

theorem symbol_rest {s : String} {ts rest : List TokenTree} {t : Tree} (h : symbol s ts = .ok (t, rest)) :
    rest = ts.drop s.length := by
  obtain ⟨ts', mid, hget, h⟩ := bind_ok h
  cases hget
  split at h
  · obtain ⟨⟨⟩, mid', hset, h⟩ := bind_ok h
    cases hset
    exact (pure_ok h).2.symm
  · cases h

theorem symbol_gives (s : String) : Gives (fun t => ∃ p, t = .leaf (.symbol s p)) (symbol s) := by
  rintro ts t rest h
  obtain ⟨ts', mid, hget, h⟩ := bind_ok h
  split at h
  · obtain ⟨⟨⟩, mid', hset, h⟩ := bind_ok h
    exact ⟨_, (pure_ok h).1.symm⟩
  · cases h

/-- A bracketed part is one token. -/
theorem group_rest {d : Delimiter} {p : Parser (List Tree)} {ts rest : List TokenTree} {t : Tree}
    (h : group d p ts = .ok (t, rest)) : ∃ o content c, ts = .group d o content c :: rest := by
  obtain ⟨ts', mid, hget, h⟩ := bind_ok h
  cases hget
  split at h
  · rename_i e o content c after hts
    split at h
    · rename_i hd
      obtain rfl : d = e := by simpa using hd
      obtain ⟨⟨⟩, mid', hset, h⟩ := bind_ok h
      cases hset
      obtain ⟨cs, mid'', hcs, h⟩ := bind_ok h
      obtain ⟨-, rfl⟩ := pure_ok h
      rw [within] at hcs
      split at hcs <;> cases hcs
      exact ⟨o, content, c, rfl⟩
    · cases h
  · cases h

theorem outerAttr_rest {ts rest : List TokenTree} {a : Tree} (h : outerAttr reach ts = .ok (a, rest)) :
    ∃ o content c, ts.drop 1 = .group .bracket o content c :: rest := by
  obtain ⟨pound, mid, hpound, h⟩ := bind_ok h
  obtain ⟨content, mid', hcontent, h⟩ := bind_ok h
  obtain ⟨-, rfl⟩ := pure_ok h
  have hrest := group_rest hcontent
  rwa [symbol_rest hpound] at hrest

theorem outerAttr_takes {ts rest : List TokenTree} {a : Tree} (h : outerAttr reach ts = .ok (a, rest)) :
    rest.length < ts.length := by
  obtain ⟨o, content, c, hrest⟩ := outerAttr_rest h
  have hlength := congrArg List.length hrest
  rw [List.length_drop, List.length_cons] at hlength
  omega

/-- An attribute as it is read: a pound sign, a bang if it applies to what it stands in, and a part in brackets. -/
def IsAttr (t : Tree) : Prop :=
  ∃ p bang o content c, t = .node .attr [.leaf (.symbol "#" p), bang, .group .bracket o content c] ∧
    (bang = .absent ∨ ∃ q, bang = .leaf (.symbol "!" q))

theorem outerAttr_gives : Gives (fun t => IsAttr t ∧ Probe.isInnerAttr t = false) (outerAttr reach) := by
  have hcontent : Gives (fun _ => True) (do return [← attrMeta reach]) := fun _ _ _ _ => trivial
  refine .bind_of (symbol_gives "#") fun pound hpound => .bind_of (.group hcontent) fun t ht => .pure ?_
  obtain ⟨p, rfl⟩ := hpound
  obtain ⟨o, content, c, rfl, -⟩ := ht
  exact ⟨⟨p, .absent, o, content, c, rfl, .inl rfl⟩, rfl⟩

theorem innerAttr_gives : Gives (fun t => IsAttr t ∧ Probe.isInnerAttr t = true) (innerAttr reach) := by
  have hcontent : Gives (fun _ => True) (do return [← attrMeta reach]) := fun _ _ _ _ => trivial
  refine .bind_of (symbol_gives "#") fun pound hpound => .bind_of (symbol_gives "!") fun bang hbang =>
    .bind_of (.group hcontent) fun t ht => .pure ?_
  obtain ⟨p, rfl⟩ := hpound
  obtain ⟨q, rfl⟩ := hbang
  obtain ⟨o, content, c, rfl, -⟩ := ht
  exact ⟨⟨p, _, o, content, c, rfl, .inr ⟨q, rfl⟩⟩, rfl⟩

/-- Only outer attributes are read from their tokens where an outer one is expected. -/
theorem outerAttr_written {a b : Tree} {ts rest : List TokenTree} (ha : IsAttr a)
    (h : outerAttr reach (a.written ++ ts) = .ok (b, rest)) : Probe.isInnerAttr a = false ∧ rest = ts := by
  obtain ⟨o, content, c, hrest⟩ := outerAttr_rest h
  obtain ⟨p, bang, o', content', c', rfl, rfl | ⟨q, rfl⟩⟩ := ha
  · cases hrest
    exact ⟨rfl, rfl⟩
  · cases hrest

theorem repeatFuel_succ (test : List TokenTree → Bool) (p : Parser α) (fuel : Nat) (ts : List TokenTree) :
    repeatFuel test p (fuel + 1) ts =
      if test ts then (p ts).bind fun r => (repeatFuel test p fuel r.2).bind fun s => .ok (r.1 :: s.1, s.2)
      else .ok ([], ts) := by
  rw [repeatFuel, bind_get]
  split
  · rfl
  · rfl

/-- A parser that takes a token at every turn is never stopped by the number of turns. -/
theorem repeatFuel_eq {test : List TokenTree → Bool} {p : Parser α} (hnil : test [] = false)
    (hp : ∀ ts a rest, p ts = .ok (a, rest) → rest.length < ts.length) {n m : Nat} {ts : List TokenTree}
    (hn : ts.length ≤ n) (hm : ts.length ≤ m) : repeatFuel test p n ts = repeatFuel test p m ts := by
  have hend : ∀ k, repeatFuel test p k [] = .ok ([], []) := by
    intro k
    cases k with
    | zero => rfl
    | succ k => rw [repeatFuel_succ, hnil, if_neg (by simp)]
  induction n generalizing m ts with
  | zero => rw [List.length_eq_zero_iff.mp (Nat.le_zero.mp hn), hend, hend]
  | succ n ih =>
    cases m with
    | zero => rw [List.length_eq_zero_iff.mp (Nat.le_zero.mp hm), hend, hend]
    | succ m =>
      rw [repeatFuel_succ, repeatFuel_succ]
      cases hr : p ts with
      | error e => rfl
      | ok r =>
        have := hp ts r.1 r.2 hr
        have hrest : repeatFuel test p n r.2 = repeatFuel test p m r.2 := ih (by omega) (by omega)
        simp only [Except.bind, hrest]

/-- Two turns that take all tokens. -/
theorem repeatWhile_two {test : List TokenTree → Bool} {p : Parser α} {ts mid rest : List TokenTree} {a b : α}
    (hts : test ts = true) (ha : p ts = .ok (a, mid)) (hmid : test mid = true) (hb : p mid = .ok (b, rest))
    (hrest : test rest = false) (hlength : 2 ≤ ts.length) : repeatWhile test p ts = .ok ([a, b], rest) := by
  obtain ⟨n, hn⟩ : ∃ n, ts.length = n + 2 := ⟨ts.length - 2, by omega⟩
  have hend : repeatFuel test p n rest = .ok ([], rest) := by
    cases n with
    | zero => rfl
    | succ n => rw [repeatFuel_succ, if_neg (by simp [hrest])]
  rw [repeatWhile, bind_get, hn, repeatFuel_succ, if_pos hts, ha]
  simp only [Except.bind, repeatFuel_succ, if_pos hmid, hb, hend]

theorem outerAttrs_ok {ts rest : List TokenTree} {t : Tree} (h : outerAttrs reach ts = .ok (t, rest)) :
    ∃ as, repeatFuel (Ahead.symbol "#") (outerAttr reach) ts.length ts = .ok (as, rest) ∧ t = .node .attrs as := by
  obtain ⟨as, mid, has, h⟩ := bind_ok h
  obtain ⟨rfl, rfl⟩ := pure_ok h
  exact ⟨as, has, rfl⟩

/-- An attribute in front of others is read first. -/
theorem outerAttrs_cons {ts mid rest : List TokenTree} {a t : Tree} (hahead : Ahead.symbol "#" ts = true)
    (ha : outerAttr reach ts = .ok (a, mid)) (h : outerAttrs reach mid = .ok (t, rest)) :
    ∃ as, t = .node .attrs as ∧ outerAttrs reach ts = .ok (.node .attrs (a :: as), rest) := by
  obtain ⟨as, has, rfl⟩ := outerAttrs_ok h
  have htakes := outerAttr_takes ha
  refine ⟨as, rfl, ?_⟩
  have hall : repeatWhile (Ahead.symbol "#") (outerAttr reach) ts = .ok (a :: as, rest) := by
    change repeatFuel (Ahead.symbol "#") (outerAttr reach) ts.length ts = _
    obtain ⟨n, hn⟩ : ∃ n, ts.length = n + 1 := ⟨ts.length - 1, by omega⟩
    rw [hn, repeatFuel_succ, if_pos hahead, ha]
    simp only [Except.bind]
    rw [repeatFuel_eq rfl (fun _ _ _ => outerAttr_takes) (n := n) (m := mid.length) (by omega) (by omega), has]
  exact (bind_of_ok hall).trans rfl

theorem outerAttrs_gives {Q : Tree → Prop} (hattr : Gives Q (outerAttr reach)) :
    Gives (fun t => ∃ as, t = .node .attrs as ∧ ∀ a ∈ as, Q a) (outerAttrs reach) :=
  .bind_of (.repeatWhile hattr) fun as has => .pure ⟨as, rfl, has⟩

/-- Attributes whose tokens are read as outer ones are outer ones. -/
theorem outer_of_outerAttrs {as : List Tree} {ts : List TokenTree} (has : ∀ a ∈ as, IsAttr a)
    (h : (outerAttrs reach (as.flatMap Tree.written ++ ts)).isOk = true) : ∀ a ∈ as, Probe.isInnerAttr a = false := by
  -- Each turn takes the tokens of one attribute, so that there are turns left for the others.
  have hturns : ∀ n, (as.flatMap Tree.written ++ ts).length ≤ n →
      (repeatFuel (Ahead.symbol "#") (outerAttr reach) n (as.flatMap Tree.written ++ ts)).isOk = true →
      ∀ a ∈ as, Probe.isInnerAttr a = false := by
    clear h
    induction as with
    | nil => simp
    | cons a as ih =>
      intro n hn h
      obtain ⟨ha, has⟩ := List.forall_mem_cons.mp has
      have hahead : Ahead.symbol "#" (a.written ++ (as.flatMap Tree.written ++ ts)) = true := by
        obtain ⟨p, bang, o, content, c, rfl, -⟩ := ha
        rfl
      rw [List.flatMap_cons, List.append_assoc] at h hn
      cases n with
      | zero =>
        rw [List.length_eq_zero_iff.mp (Nat.le_zero.mp hn)] at hahead
        cases hahead
      | succ n =>
        rw [repeatFuel_succ, if_pos hahead] at h
        cases hfirst : outerAttr reach (a.written ++ (as.flatMap Tree.written ++ ts)) with
        | error e =>
          rw [hfirst] at h
          cases h
        | ok r =>
          obtain ⟨hinner, hrest⟩ := outerAttr_written ha hfirst
          have htakes := outerAttr_takes hfirst
          rw [hrest] at htakes
          refine List.forall_mem_cons.mpr ⟨hinner, ih has n (by omega) ?_⟩
          rw [hfirst, Except.bind, hrest] at h
          cases hmore : repeatFuel (Ahead.symbol "#") (outerAttr reach) n (as.flatMap Tree.written ++ ts) with
          | error e =>
            rw [hmore] at h
            cases h
          | ok r => rfl
  refine hturns _ (Nat.le_refl _) ?_
  cases hall : outerAttrs reach (as.flatMap Tree.written ++ ts) with
  | error e =>
    rw [hall] at h
    cases h
  | ok r =>
    obtain ⟨as', has', -⟩ := outerAttrs_ok hall
    rw [has']
    rfl

/-! ### Blocks -/

/-- A block in braces with inner attributes and statements. -/
theorem block_gives {Q : Tree → Prop} (hattr : Gives Q (innerAttr reach)) : Gives (fun t => ∃ o inner ss c,
    t = .node .block [.group .brace o [.node .attrs inner, .node .stmts ss] c] ∧ ∀ a ∈ inner, Q a) (block reach true) := by
  have hcontent : Gives (fun cs => ∃ inner ss, cs = [.node .attrs inner, .node .stmts ss] ∧ ∀ a ∈ inner, Q a)
      (blockContent reach true) := by
    refine .bind_of (Q := fun t => ∃ inner, t = .node .attrs inner ∧ ∀ a ∈ inner, Q a) ?_ ?_
    · exact .bind_of (.repeatWhile hattr) fun inner hinner => .pure ⟨inner, rfl, hinner⟩
    · rintro attrs ⟨inner, rfl, hinner⟩
      exact .bind fun ts => .bind fun ss => .pure ⟨inner, ss, rfl, hinner⟩
  refine .bind_of (.group hcontent) fun t ht => .pure ?_
  obtain ⟨o, content, c, rfl, inner, ss, rfl, hinner⟩ := ht
  exact ⟨o, inner, ss, c, rfl, hinner⟩

/-! ### Items that are no functions -/

/-- Whether functions stand in items of a kind, outside of their expressions and types. -/
def holdsFns : Kind → Bool
  | .fnItem | .modItem | .implItem | .traitItem => true
  | _ => false

section Others

variable {P : Tree → Prop} (hother : ∀ k cs, holdsFns k = false → P (.node k cs))

include hother

theorem passedThrough_gives (start : List TokenTree) : Gives P (passedThrough start) :=
  .bind fun _ => .pure (hother _ _ rfl)

theorem foreignMod_gives : Gives P (foreignMod reach) := .bind fun _ => .bind fun _ => .bind fun _ => .pure (hother _ _ rfl)

theorem structItem_gives (vis : Tree) : Gives P (structItem reach vis) := by
  refine .bind fun s => .bind fun n => .bind fun gs => .bind fun early => .bind fun ts => .ite ?_ (.ite ?_ ?_)
  · exact .bind fun fields => .bind fun late => .bind fun semi => .pure (hother _ _ rfl)
  · exact .bind fun fields => .pure (hother _ _ rfl)
  · exact .bind fun semi => .pure (hother _ _ rfl)

theorem typeItem_gives (begin : List TokenTree) (vis : Tree) : Gives P (typeItem reach begin vis) := by
  refine .bind fun t => .bind fun n => .bind fun gs => .bind fun bounded => .bind fun bs => .bind fun w => .bind fun eq =>
    .bind fun ty => .bind fun semi => ?_
  exact .ite (passedThrough_gives hother begin) (.pure (hother _ _ rfl))

theorem macroItem_gives : Gives P macroItem := by
  refine .bind fun p => .bind fun bang => .bind fun n => .bind fun args => ?_
  exact .bind fun semi => .pure (hother _ _ rfl)

theorem namedMacro_gives (begin : List TokenTree) : Gives P (namedMacro begin) := by
  have hbody : Gives P (do
      if Ahead.group .brace (← get) then
        let _ ← anyGroup
        passedThrough begin
      else refuse) :=
    .bind fun ts => .ite (.bind fun _ => passedThrough_gives hother begin) .refuse
  exact .bind fun m => .bind fun n => .bind fun ts => .ite (.bind fun _ => hbody) hbody

/-- What an item is where no signature starts, given what modules, traits and implementations are. -/
theorem itemRest_gives {begin ts rest : List TokenTree} {vis t : Tree} (hmod : Gives P (modItem reach vis))
    (htrait : Gives P (traitItem reach vis)) (himpl : Gives P (implItem reach begin vis))
    (hsig : signatureAhead false ts = false) (h : itemRest reach begin vis ts = .ok (t, rest)) : P t := by
  rw [itemRest, bind_get] at h
  simp only [hsig, Bool.false_eq_true, ↓reduceIte] at h
  have hpassed := passedThrough_gives hother begin
  have hforeign : Gives P (foreignMod reach) := foreignMod_gives hother
  refine Gives.holds h (.ite ?foreign (.ite ?imported (.ite ?global (.ite ?constant (.ite ?danger (.ite hmod
    (.ite (typeItem_gives hother begin vis) (.ite (structItem_gives hother vis) (.ite ?variants (.ite ?fields (.ite htrait
    (.ite himpl (.ite (namedMacro_gives hother begin) (.ite (macroItem_gives hother) .refuse))))))))))))))
  case foreign =>
    refine .ite (.bind fun e => .bind fun c => .bind fun ts => .branch fun n => .bind fun rename => .bind fun semi => ?_)
      (.ite .refuse hforeign)
    exact .pure (hother _ _ rfl)
  case imported =>
    exact .bind fun u => .bind fun lead => .bind fun tree => .bind fun semi => .ite hpassed (.pure (hother _ _ rfl))
  case global =>
    exact .bind fun s => .bind fun m => .bind fun n => .bind fun colon => .bind fun ty => .bind fun eq =>
      .bind fun value => .bind fun semi => .ite (.pure (hother _ _ rfl)) (.ite hpassed .refuse)
  case constant =>
    refine .bind fun c => .bind fun parts => ?_
    split
    · exact .ite (.pure (hother _ _ rfl)) hpassed
    · exact hpassed
  case danger => exact .ite htrait (.ite himpl (.ite (.ite .refuse hforeign) (.ite hmod .refuse)))
  case variants =>
    exact .bind fun e => .bind fun n => .bind fun gs => .bind fun w => .bind fun variants => .pure (hother _ _ rfl)
  case fields => exact .bind fun u => .bind fun n => .bind fun gs => .bind fun w => .bind fun fields => .pure (hother _ _ rfl)

end Others

/-- A tree that is no function item. -/
def NotFn (t : Tree) : Prop := t.kind? ≠ some .fnItem

theorem NotFn.node {k : Kind} {cs : List Tree} (h : k ≠ .fnItem) : NotFn (.node k cs) :=
  fun hk => h (Option.some.inj hk)

theorem notFn_other (k : Kind) (cs : List Tree) (h : holdsFns k = false) : NotFn (.node k cs) :=
  .node fun hk => by simp [hk, holdsFns] at h

theorem modItem_notFn (vis : Tree) : Gives NotFn (modItem reach vis) :=
  .bind fun u => .bind fun m => .bind fun ts => .branch fun n => .bind fun ts' => .branch fun body =>
    .pure (.node (by decide))

theorem traitItem_notFn (vis : Tree) : Gives NotFn (traitItem reach vis) := by
  refine .bind fun u => .bind fun a => .bind fun t => .bind fun n => .bind fun gs => .bind fun ts => .ite ?_ ?_
  · exact .bind fun eq => .bind fun bs => .bind fun w => .bind fun semi => .pure (.node (by decide))
  · exact .bind fun colon => .branch fun bs => .bind fun w => .bind fun body => .pure (.node (by decide))

theorem implItem_notFn (begin : List TokenTree) (vis : Tree) : Gives NotFn (implItem reach begin vis) := by
  have hpassed := passedThrough_gives notFn_other begin
  refine .bind fun def_ => .bind fun u => .bind fun i => .bind fun start => .branch fun gs => .bind fun ts =>
    .bind fun _ => .bind fun _ => .bind fun bang => .bind fun first => .bind fun f => .branch fun self =>
    .before fun _ => .bind fun w => .bind fun body => .ite hpassed (.ite (.pure (.node (by decide))) ?_)
  split
  · exact .pure (.node (by decide))
  · exact hpassed

/-- Where no signature starts, there is no function item. -/
theorem itemRest_notFn {begin ts rest : List TokenTree} {vis t : Tree} (hsig : signatureAhead false ts = false)
    (h : itemRest reach begin vis ts = .ok (t, rest)) : NotFn t :=
  itemRest_gives notFn_other (modItem_notFn vis) (traitItem_notFn vis) (implItem_notFn begin vis) hsig h

/-- What makes up a function item: the tokens at its start are those of a signature, and no semicolon stands in
    place of its body. -/
theorem itemRest_fnItem {begin ts rest : List TokenTree} {vis : Tree} {parts : List Tree}
    (h : itemRest reach begin vis ts = .ok (.node .fnItem parts, rest)) :
    signatureAhead false ts = true ∧ ∃ sig body mid, signature reach ts = .ok (sig, mid) ∧
      Ahead.symbol ";" mid = false ∧ reach (.block true) mid = .ok (body, rest) ∧
      parts = [.noAttrs, vis, sig, body] := by
  cases hsig : signatureAhead false ts with
  | false => exact absurd rfl (itemRest_notFn hsig h)
  | true =>
    refine ⟨rfl, ?_⟩
    rw [itemRest, bind_get] at h
    simp only [hsig, ↓reduceIte] at h
    obtain ⟨sig, mid, hsignature, h⟩ := bind_ok h
    rw [bind_get] at h
    split at h
    · obtain ⟨semi, mid', -, h⟩ := bind_ok h
      exact absurd rfl (passedThrough_gives notFn_other begin _ _ _ h)
    · rename_i hsemi
      obtain ⟨body, mid', hbody, h⟩ := bind_ok h
      obtain ⟨ht, rfl⟩ := pure_ok h
      cases ht
      exact ⟨sig, body, mid, hsignature, by simpa using hsemi, hbody, rfl⟩

theorem itemRest_of_signature {begin ts mid rest : List TokenTree} {vis sig body : Tree}
    (hahead : signatureAhead false ts = true) (hsig : signature reach ts = .ok (sig, mid))
    (hsemi : Ahead.symbol ";" mid = false) (hbody : reach (.block true) mid = .ok (body, rest)) :
    itemRest reach begin vis ts = .ok (.node .fnItem [.noAttrs, vis, sig, body], rest) := by
  rw [itemRest, bind_get]
  simp only [hahead, ↓reduceIte]
  rw [bind_of_ok hsig, bind_get]
  simp only [hsemi, Bool.false_eq_true, ↓reduceIte]
  exact (bind_of_ok hbody).trans rfl

theorem kind?_addAttrs (t attrs : Tree) : (t.addAttrs attrs).kind? = t.kind? := by
  unfold Tree.addAttrs
  split <;> rfl

/-- The parts of a function item in front of some tokens, in the order in which they are read. -/
def FnParts (reach : Reach) (ts : List TokenTree) (as : List Tree) (vis sig body : Tree) (rest : List TokenTree) :
    Prop :=
  ∃ ts₁ ts₂ ts₃, outerAttrs reach ts = .ok (.node .attrs as, ts₁) ∧ visibility ts₁ = .ok (vis, ts₂) ∧
    signatureAhead false ts₂ = true ∧ signature reach ts₂ = .ok (sig, ts₃) ∧ Ahead.symbol ";" ts₃ = false ∧
    reach (.block true) ts₃ = .ok (body, rest)

theorem item_fnItem {ts rest : List TokenTree} {parts : List Tree}
    (h : item reach ts = .ok (.node .fnItem parts, rest)) :
    ∃ as vis sig body, FnParts reach ts as vis sig body rest ∧ parts = [.node .attrs as, vis, sig, body] := by
  rw [item, bind_get] at h
  obtain ⟨attrs, ts₁, hattrs, h⟩ := bind_ok h
  obtain ⟨vis, ts₂, hvis, h⟩ := bind_ok h
  obtain ⟨i, ts₃, hi, h⟩ := bind_ok h
  obtain ⟨ht, rfl⟩ := pure_ok h
  obtain ⟨as, -, rfl⟩ := outerAttrs_ok hattrs
  have hkind : i.kind? = some .fnItem := by
    have := congrArg Tree.kind? ht
    split at this
    · exact this
    · rwa [kind?_addAttrs] at this
  cases i with
  | node k cs =>
    obtain rfl : k = .fnItem := Option.some.inj hkind
    obtain ⟨hahead, sig, body, mid, hsig, hsemi, hbody, rfl⟩ := itemRest_fnItem hi
    cases ht
    exact ⟨as, vis, sig, body, ⟨ts₁, ts₂, mid, hattrs, hvis, hahead, hsig, hsemi, hbody⟩,
      by simp [Tree.attrList]⟩
  | leaf | tokens | arguments | group => cases hkind

theorem FnParts.item {ts rest : List TokenTree} {as : List Tree} {vis sig body : Tree}
    (h : FnParts reach ts as vis sig body rest) :
    item reach ts = .ok (.node .fnItem [.node .attrs as, vis, sig, body], rest) := by
  obtain ⟨ts₁, ts₂, ts₃, hattrs, hvis, hahead, hsig, hsemi, hbody⟩ := h
  rw [Parse.item, bind_get, bind_of_ok hattrs, bind_of_ok hvis,
    bind_of_ok (itemRest_of_signature hahead hsig hsemi hbody)]
  simp [Tree.addAttrs, Tree.attrList, Tree.noAttrs, Tree.kind?]
  rfl

/-- A function item behind one more attribute. -/
theorem FnParts.cons {ts mid rest : List TokenTree} {a : Tree} {as : List Tree} {vis sig body : Tree}
    (hahead : Ahead.symbol "#" ts = true) (ha : outerAttr reach ts = .ok (a, mid))
    (h : FnParts reach mid as vis sig body rest) : FnParts reach ts (a :: as) vis sig body rest := by
  obtain ⟨ts₁, ts₂, ts₃, hattrs, hparts⟩ := h
  obtain ⟨as', has, hall⟩ := outerAttrs_cons hahead ha hattrs
  cases has
  exact ⟨ts₁, ts₂, ts₃, hall, hparts⟩

end CallProbe.Source.Parse

namespace CallProbe.Probe

open Source Parse

/-! ### The reader of functions -/

/-- A function read alone has the parts of the item; inner attributes of its body are outer ones then. -/
theorem Function.reader_of_parts {reach : Reach} {ts rest : List TokenTree} {as : List Tree} {vis sig body : Tree}
    (h : FnParts reach ts as vis sig body rest) :
    reader reach ts = .ok (⟨as ++ (splitBody body).2.map outerStyle, vis, sig, some (splitBody body).1⟩, rest) := by
  obtain ⟨ts₁, ts₂, ts₃, hattrs, hvis, -, hsig, hsemi, hbody⟩ := h
  rw [reader, bind_of_ok hattrs, bind_of_ok hvis, bind_of_ok hsig, bind_get]
  simp only [hsemi, Bool.false_eq_true, ↓reduceIte]
  exact (bind_of_ok hbody).trans rfl

/-- Reads an item. -/
def itemOf (ts : List TokenTree) : Except Fault Tree := Grammar.parseWith item ts

/-- A function item: its parts, with the inner attributes at the start of its body. -/
theorem itemOf_fnItem {ts : List TokenTree} {attrs vis sig body : Tree}
    (h : itemOf ts = .ok (.node .fnItem [attrs, vis, sig, body])) :
    ∃ as, attrs = .node .attrs as ∧ FnParts Grammar.reach ts as vis sig body [] := by
  unfold itemOf Grammar.parseWith at h
  split at h
  · rename_i t hitem
    cases h
    obtain ⟨as, vis, sig, body, hparts, heq⟩ := item_fnItem hitem
    cases heq
    exact ⟨as, rfl, hparts⟩
  · cases h
  · cases h

/-- What the body of a function item is: a block, with inner attributes and statements. -/
theorem itemOf_body {ts : List TokenTree} {attrs vis sig body : Tree}
    (h : itemOf ts = .ok (.node .fnItem [attrs, vis, sig, body])) :
    ∃ o inner ss c, body = .node .block [.group .brace o [.node .attrs inner, .node .stmts ss] c] ∧
      ∀ a ∈ inner, IsAttr a ∧ isInnerAttr a = true := by
  obtain ⟨as, -, ts₁, ts₂, ts₃, -, -, -, -, -, hbody⟩ := itemOf_fnItem h
  exact block_gives innerAttr_gives ts₃ body [] hbody

theorem itemOf_attrs {ts : List TokenTree} {attrs vis sig body : Tree}
    (h : itemOf ts = .ok (.node .fnItem [attrs, vis, sig, body])) : ∀ a ∈ attrs.attrList, IsAttr a := by
  obtain ⟨as, rfl, ts₁, ts₂, ts₃, hattrs, -⟩ := itemOf_fnItem h
  obtain ⟨as', has, hall⟩ := outerAttrs_gives outerAttr_gives ts _ ts₁ hattrs
  cases has
  exact fun a ha => (hall a ha).1

/-- A function whose tokens can be read back has no inner attributes. -/
theorem Function.outer_of_readsBack {f : Function} (h : f.readsBack = true) (hattrs : ∀ a ∈ f.attrs, IsAttr a) :
    ∀ a ∈ f.attrs, isInnerAttr a = false := by
  rw [readsBack, parse, Grammar.parseWith] at h
  cases hread : reader Grammar.reach f.toTokens with
  | error e =>
    rw [hread] at h
    cases h
  | ok r =>
    obtain ⟨attrs, mid, hfirst, -⟩ := bind_ok hread
    rw [toTokens, List.append_assoc, List.append_assoc] at hfirst
    have hok := congrArg Except.isOk hfirst
    exact outer_of_outerAttrs hattrs hok

/-- A function item read as a function. -/
theorem parse_of_itemOf {ts : List TokenTree} {attrs vis sig body : Tree}
    (h : itemOf ts = .ok (.node .fnItem [attrs, vis, sig, body])) :
    Function.parse ts = .ok ⟨attrs.attrList ++ (Function.splitBody body).2.map Function.outerStyle, vis, sig,
      some (Function.splitBody body).1⟩ := by
  obtain ⟨as, rfl, hparts⟩ := itemOf_fnItem h
  rw [Function.parse, Grammar.parseWith, Function.reader_of_parts hparts]
  rfl

/-! ### Files with one marked function -/

/-- The tokens of `use shallow_runtime::{profile, wrap_calls};`. -/
def importTokens (place : Nat → Pos) (joint : Bool) : List TokenTree :=
  [.ident "use" (place 0), .ident "shallow_runtime" (place 1), .punct ':' true (place 2), .punct ':' false (place 3),
    .group .brace (place 4) [.ident "profile" (place 5), .punct ',' false (place 6), .ident "wrap_calls" (place 7)]
      (place 8),
    .punct ';' joint (place 9)]

/-- The tokens of `#[m(args)]`. -/
def Marker.attrTokens (m : Marker) (place : Nat → Pos) (args : List TokenTree) : List TokenTree :=
  [.punct '#' false (place 10),
    .group .bracket (place 11) [.ident m.name (place 12), .group .paren (place 13) args (place 14)] (place 15)]

/-- The import as an item. -/
def importItem (place : Nat → Pos) : Tree :=
  .node .useItem [.noAttrs, .absent, .leaf (.word "use" (place 0)), .absent,
    .node .usePath [.leaf (.word "shallow_runtime" (place 1)), .leaf (.symbol "::" (place 2)),
      .node .useGroup [.group .brace (place 4) [.list [.node .useName [.leaf (.word "profile" (place 5))],
        .leaf (.symbol "," (place 6)), .node .useName [.leaf (.word "wrap_calls" (place 7))]]] (place 8)]],
    .leaf (.symbol ";" (place 9))]

/-- The marker as an attribute. -/
def Marker.attr (m : Marker) (place : Nat → Pos) (args : List TokenTree) : Tree :=
  .node .attr [.leaf (.symbol "#" (place 10)), .absent, .group .bracket (place 11)
    [.node .metaList [.node .path [.absent, .list [.node .segment [.leaf (.word m.name (place 12)), .absent]]],
      .group .paren (place 13) [.tokens args] (place 14)]] (place 15)]

theorem item_importTokens (place : Nat → Pos) (joint : Bool) (rest : List TokenTree) :
    item Grammar.reach (importTokens place joint ++ rest) = .ok (importItem place, rest) := rfl

theorem outerAttr_attrTokens (reach : Reach) (m : Marker) (place : Nat → Pos) (args rest : List TokenTree) :
    outerAttr reach (m.attrTokens place args ++ rest) = .ok (m.attr place args, rest) := by
  cases m <;> rfl

/-- The file that is the import of the markers and an item with a marker on it. -/
theorem parseFile_marked {ts : List TokenTree} {attrs vis sig body : Tree} (m : Marker) (place : Nat → Pos)
    (joint : Bool) (args : List TokenTree) (h : itemOf ts = .ok (.node .fnItem [attrs, vis, sig, body])) :
    Grammar.parseFile (importTokens place joint ++ (m.attrTokens place args ++ ts)) =
      .ok (.node .file [.noAttrs, .node .items [importItem place,
        .node .fnItem [.node .attrs (m.attr place args :: attrs.attrList), vis, sig, body]]]) := by
  obtain ⟨as, rfl, hparts⟩ := itemOf_fnItem h
  have hitem := (hparts.cons rfl (outerAttr_attrTokens Grammar.reach m place args ts)).item
  have hnone : innerAttrs Grammar.reach (importTokens place joint ++ (m.attrTokens place args ++ ts)) =
      .ok (.noAttrs, importTokens place joint ++ (m.attrTokens place args ++ ts)) := rfl
  have htwo : repeatWhile (!atEnd ·) (item Grammar.reach)
      (importTokens place joint ++ (m.attrTokens place args ++ ts)) = _ :=
    repeatWhile_two rfl (item_importTokens place joint _) rfl hitem rfl (by simp [importTokens])
  rw [Grammar.parseFile, Grammar.parseWith, bind_of_ok hnone, bind_of_ok htwo]
  rfl

end CallProbe.Probe
