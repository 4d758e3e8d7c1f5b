import CallProbe.Proofs.Grammar.Nesting

/-! # What is read in front of a comma

A path reads the same whether the tokens end behind it or go on with a comma: a comma outside of brackets and angle brackets
is part of no path or type. Where the tokens end, the rules see an end, and here they see the comma;
`FollowsAt` says that this makes no difference to a parser, and each combinator and each rule that a path can come to has its
lemma. What stands in brackets is the same tokens in both cases, so the rules for it need none. -/

namespace CallProbe.Source.Parse

variable {α β : Type}

/-! ### In front of a comma -/

/-- A comma and the tokens after it. -/
structure Comma where
  joint : Bool
  pos : Pos
  after : List TokenTree

/-- The tokens from the comma on. -/
def Comma.tokens (c : Comma) : List TokenTree := .punct ',' c.joint c.pos :: c.after

/-- What one parser reads of some tokens another one reads in front of a comma. What is left is an end of the tokens. -/
structure FollowsAt (c : Comma) (ts : List TokenTree) (p q : Parser α) : Prop where
  reads : ∀ {a rest}, p ts = .ok (a, rest) → q (ts ++ c.tokens) = .ok (a, rest ++ c.tokens)
  ends : ∀ {a rest}, p ts = .ok (a, rest) → rest <:+ ts

/-- What one parser reads another one reads in front of a comma. -/
def Follows (c : Comma) (p q : Parser α) : Prop := ∀ ts, FollowsAt c ts p q

/-- A test says the same where the tokens end and where a comma comes. -/
def Steady (c : Comma) (test : List TokenTree → Bool) : Prop := ∀ ts, test (ts ++ c.tokens) = test ts

variable {c : Comma}

/-! ### Tests -/

theorem Ahead.chars_length {cs : List Char} {ts : List TokenTree} (h : Ahead.chars cs ts = true) : cs.length ≤ ts.length := by
  induction cs generalizing ts with
  | nil => exact Nat.zero_le _
  | cons x cs ih =>
    cases ts with
    | nil => cases cs <;> cases h
    | cons t ts =>
      cases cs with
      | nil => exact Nat.succ_le_succ (Nat.zero_le _)
      | cons y ys =>
        cases t with
        | punct e j p =>
          change (x == e && j && Ahead.chars (y :: ys) ts) = true at h
          rw [Bool.and_eq_true] at h
          exact Nat.succ_le_succ (ih h.2)
        | _ => cases h

/-- An operator stands in its own tokens. -/
theorem Ahead.symbol_length {s : String} {ts : List TokenTree} (h : Ahead.symbol s ts = true) : s.length ≤ ts.length :=
  String.length_toList ▸ Ahead.chars_length h

/-- An operator that comes next comes next whatever is behind it. -/
theorem Ahead.chars_append {cs : List Char} {ts : List TokenTree} (h : Ahead.chars cs ts = true) (us : List TokenTree) :
    Ahead.chars cs (ts ++ us) = true := by
  induction cs generalizing ts with
  | nil => cases ts ++ us <;> rfl
  | cons x cs ih =>
    cases ts with
    | nil => cases cs <;> cases h
    | cons t ts =>
      cases cs with
      | nil => cases t <;> exact h
      | cons y ys =>
        cases t with
        | punct e j p =>
          change (x == e && j && Ahead.chars (y :: ys) ts) = true at h
          change (x == e && j && Ahead.chars (y :: ys) (ts ++ us)) = true
          rw [Bool.and_eq_true] at h ⊢
          exact ⟨h.1, ih h.2⟩
        | _ => cases h

namespace Steady

theorem word (w : String) : Steady c (Ahead.word w)
  | [] | .ident _ _ :: _ | .lifetime _ _ :: _ | .literal _ _ :: _ | .punct _ _ _ :: _ | .group _ _ _ _ :: _ => rfl

theorem oneOf (ws : List String) : Steady c (Ahead.oneOf ws)
  | [] | .ident _ _ :: _ | .lifetime _ _ :: _ | .literal _ _ :: _ | .punct _ _ _ :: _ | .group _ _ _ _ :: _ => rfl

theorem anyWord : Steady c Ahead.anyWord
  | [] | .ident _ _ :: _ | .lifetime _ _ :: _ | .literal _ _ :: _ | .punct _ _ _ :: _ | .group _ _ _ _ :: _ => rfl

theorem name : Steady c Ahead.name
  | [] | .ident _ _ :: _ | .lifetime _ _ :: _ | .literal _ _ :: _ | .punct _ _ _ :: _ | .group _ _ _ _ :: _ => rfl

theorem lifetime : Steady c Ahead.lifetime
  | [] | .ident _ _ :: _ | .lifetime _ _ :: _ | .literal _ _ :: _ | .punct _ _ _ :: _ | .group _ _ _ _ :: _ => rfl

theorem group (d : Delimiter) : Steady c (Ahead.group d)
  | [] | .ident _ _ :: _ | .lifetime _ _ :: _ | .literal _ _ :: _ | .punct _ _ _ :: _ | .group _ _ _ _ :: _ => rfl

theorem stringLiteral : Steady c Ahead.stringLiteral
  | [] | .ident _ _ :: _ | .lifetime _ _ :: _ | .literal _ _ :: _ | .punct _ _ _ :: _ | .group _ _ _ _ :: _ => rfl

theorem literal_punct {x : Char} (hx : x ≠ '-') (j : Bool) (p : Pos) (ts : List TokenTree) :
    Ahead.literal (.punct x j p :: ts) = false := by
  unfold Ahead.literal
  split <;> simp_all

theorem literal : Steady c Ahead.literal := by
  intro ts
  cases ts with
  | nil => rfl
  | cons t ts =>
    cases t with
    | punct x j p =>
      by_cases hx : x = '-'
      · subst hx
        cases ts with
        | nil => rfl
        | cons u us => cases u <;> rfl
      · rw [List.cons_append, literal_punct hx, literal_punct hx]
    | _ => rfl

theorem chars {cs : List Char} (hcs : cs ≠ []) (hcomma : ',' ∉ cs) : Steady c (Ahead.chars cs) := by
  intro ts
  induction cs generalizing ts with
  | nil => exact absurd rfl hcs
  | cons x cs ih =>
    rw [List.mem_cons, not_or] at hcomma
    have hne : (x == ',') = false := by simpa using Ne.symm hcomma.1
    cases cs with
    | nil =>
      cases ts with
      | nil => exact hne
      | cons t ts => cases t <;> rfl
    | cons y ys =>
      cases ts with
      | nil =>
        change (x == ',' && c.joint && Ahead.chars (y :: ys) c.after) = false
        rw [hne]
        rfl
      | cons t ts =>
        cases t with
        | punct e j p =>
          change (x == e && j && Ahead.chars (y :: ys) (ts ++ c.tokens)) = (x == e && j && Ahead.chars (y :: ys) ts)
          rw [ih (by simp) hcomma.2]
        | _ => rfl

theorem symbol {s : String} (hs : s.toList ≠ []) (hcomma : ',' ∉ s.toList) : Steady c (Ahead.symbol s) :=
  chars hs hcomma

variable {t u : List TokenTree → Bool}

theorem not (ht : Steady c t) : Steady c fun ts => !t ts := fun ts => congrArg _ (ht ts)

theorem and (ht : Steady c t) (hu : Steady c u) : Steady c fun ts => t ts && u ts :=
  fun ts => show (t (ts ++ c.tokens) && u (ts ++ c.tokens)) = _ by rw [ht, hu]

theorem or (ht : Steady c t) (hu : Steady c u) : Steady c fun ts => t ts || u ts :=
  fun ts => show (t (ts ++ c.tokens) || u (ts ++ c.tokens)) = _ by rw [ht, hu]

/-- A test may look further where another one has seen enough tokens. -/
theorem later {k : Nat} (ht : Steady c t) (hlength : ∀ ts, t ts = true → k ≤ ts.length) (hu : Steady c u) :
    Steady c fun ts => t ts && u (ts.drop k) := by
  intro ts
  change (t (ts ++ c.tokens) && u ((ts ++ c.tokens).drop k)) = (t ts && u (ts.drop k))
  rw [ht]
  cases hts : t ts with
  | false => rfl
  | true => rw [List.drop_append_of_le_length (hlength ts hts), hu]

end Steady

/-! ### Steps -/

section

variable {p q p' q' : Parser α} {f g : α → Parser β} {ts start : List TokenTree}

namespace FollowsAt

theorem pure (a : α) : FollowsAt c ts (pure a : Parser α) (pure a) where
  reads h := by
    obtain ⟨rfl, rfl⟩ := pure_ok h
    rfl
  ends h := (pure_ok h).2 ▸ List.suffix_rfl

/-- Where nothing is read, nothing has to be read in front of a comma. -/
theorem fail (h : ∀ r, p ts ≠ .ok r) : FollowsAt c ts p q := ⟨fun hp => absurd hp (h _), fun hp => absurd hp (h _)⟩

theorem refuse : FollowsAt c ts (refuse : Parser α) q := .fail fun _ h => by cases h

/-- What comes after a parser may use what that took. -/
theorem step (hp : FollowsAt c ts p q) (hf : ∀ {a mid}, p ts = .ok (a, mid) → FollowsAt c mid (f a) (g a)) :
    FollowsAt c ts (p >>= f) (q >>= g) where
  reads h := by
    obtain ⟨a, mid, ha, hb⟩ := bind_ok h
    exact (bind_of_ok (hp.reads ha)).trans ((hf ha).reads hb)
  ends h := by
    obtain ⟨a, mid, ha, hb⟩ := bind_ok h
    exact ((hf ha).ends hb).trans (hp.ends ha)

theorem bind (hp : FollowsAt c ts p q) (hf : ∀ a, Follows c (f a) (g a)) : FollowsAt c ts (p >>= f) (q >>= g) :=
  .step hp fun _ => hf _ _

/-- A parser that takes a token leaves fewer. -/
theorem length_lt [ht : Takes p] (hp : FollowsAt c ts p q) {a : α} {rest : List TokenTree} (h : p ts = .ok (a, rest)) :
    rest.length < ts.length := by
  have hsuffix := hp.ends h
  refine Nat.lt_of_le_of_ne hsuffix.length_le fun hlength => ?_
  have hcount := ht.lt h
  rw [hsuffix.eq_of_length hlength] at hcount
  exact absurd hcount (Nat.lt_irrefl _)

/-- A parser may look at the tokens. -/
theorem look {f g : List TokenTree → Parser α} (h : FollowsAt c ts (f ts) (g (ts ++ c.tokens))) :
    FollowsAt c ts (get >>= f) (get >>= g) := ⟨h.reads, h.ends⟩

/-- A parser may go on at tokens that it has seen. -/
theorem put {f g : Unit → Parser α} (hstart : start <:+ ts) (h : FollowsAt c start (f ()) (g ())) :
    FollowsAt c ts (set start >>= f) (set (start ++ c.tokens) >>= g) :=
  ⟨h.reads, fun hp => (h.ends hp).trans hstart⟩

theorem ite {b b' : Bool} (hb : b' = b) (hp : FollowsAt c ts p p') (hq : FollowsAt c ts q q') :
    FollowsAt c ts (if b then p else q) (if b' then p' else q') := by
  subst hb
  split
  · exact hp
  · exact hq

/-- A check that may refuse the tokens. -/
theorem check {b b' : Bool} {f g : Unit → Parser α} (hb : b' = b) (h : FollowsAt c ts (f ()) (g ())) :
    FollowsAt c ts (if b then Parse.refuse >>= f else f ()) (if b' then Parse.refuse >>= g else g ()) :=
  .ite hb (.fail fun _ h => by cases h) h

/-- What stands in brackets is the same. -/
theorem within {content : List TokenTree} : FollowsAt c ts (within content p) (within content p) where
  reads h := by
    unfold Parse.within at h ⊢
    split at h <;> cases h
    rfl
  ends h := by
    unfold Parse.within at h
    split at h <;> cases h
    exact List.suffix_rfl

/-- What was taken since a place is the same. -/
theorem passed (kind : Kind) (start : List TokenTree) :
    FollowsAt c ts (passed kind start) (passed kind (start ++ c.tokens)) where
  reads h := by
    cases h
    change Except.ok (Tree.node kind [.tokens (List.take (_ - _) _)], _) = _
    rw [List.length_append, List.length_append, Nat.add_sub_add_right, List.take_append_of_le_length (Nat.sub_le _ _)]
  ends h := by
    cases h
    exact List.suffix_rfl

end FollowsAt

/-- A parser that takes a token needs one. -/
theorem Takes.nil [h : Takes p] (r : α × List TokenTree) : p [] ≠ .ok r := fun hp => absurd (h.lt hp) (Nat.not_lt_zero _)

/-- What is read as a literal looks like one. -/
theorem ahead_literal {ts : List TokenTree} {r : Tree × List TokenTree} (h : literal ts = .ok r) : Ahead.literal ts = true := by
  unfold literal at h
  rw [bind_get] at h
  split at h
  · rfl
  · split at h
    · assumption
    · cases h
  · split at h
    · assumption
    · cases h
  · cases h

namespace Follows

theorem pure (a : α) : Follows c (pure a : Parser α) (pure a) := fun _ => .pure a

theorem refuse : Follows c (refuse : Parser α) q := fun _ => .refuse

theorem bind (hp : Follows c p q) (hf : ∀ a, Follows c (f a) (g a)) :
    Follows c (p >>= f) (q >>= g) := fun ts => .bind (hp ts) hf

theorem ite {b : Bool} (hp : Follows c p p') (hq : Follows c q q') :
    Follows c (if b then p else q) (if b then p' else q') := fun ts => .ite rfl (hp ts) (hq ts)

/-- A test decides. -/
theorem test {t : List TokenTree → Bool} (ht : Steady c t) (hp : Follows c p p')
    (hq : Follows c q q') : Follows c (do if t (← get) then p else q)
      (do if t (← get) then p' else q') := fun ts => .look (.ite (ht ts) (hp ts) (hq ts))

theorem when {t : List TokenTree → Bool} {p q : Parser Tree} (ht : Steady c t) (h : Follows c p q) :
    Follows c (whenAhead t p) (whenAhead t q) := .test ht h (.pure _)

theorem part {b : Bool} {p q : Parser Tree} (h : Follows c p q) :
    Follows c (partWhen b p) (partWhen b q) := .ite h (.pure _)

/-- No tokens are added to those that are left. -/
theorem keeps (h : Follows c p q) : Keeps p :=
  ⟨fun {ts _ _} hp => List.suffix_iff_eq_drop.mp ((h ts).ends hp) ▸ tokenCount_drop_le _ _⟩

theorem anyWord : Follows c anyWord Parse.anyWord
  | [] | .lifetime _ _ :: _ | .literal _ _ :: _ | .punct _ _ _ :: _ | .group _ _ _ _ :: _ => .fail fun _ h => by cases h
  | .ident _ _ :: _ => .look (.put (List.suffix_cons _ _) (.pure _))

theorem word (w : String) : Follows c (word w) (Parse.word w) := .test (.word w) anyWord .refuse

theorem name : Follows c name Parse.name := .test .name anyWord .refuse

theorem lifetime : Follows c lifetime Parse.lifetime
  | [] | .ident _ _ :: _ | .literal _ _ :: _ | .punct _ _ _ :: _ | .group _ _ _ _ :: _ => .fail fun _ h => by cases h
  | .lifetime _ _ :: _ => .look (.put (List.suffix_cons _ _) (.pure _))

theorem symbol {s : String} (hs : s.toList ≠ []) : Follows c (symbol s) (Parse.symbol s) := by
  intro ts
  refine .look ?_
  cases hts : Ahead.symbol s ts with
  | false => exact .fail fun _ h => by cases h
  | true =>
    rw [show Ahead.symbol s (ts ++ c.tokens) = true from Ahead.chars_append hts _,
      List.drop_append_of_le_length (Ahead.symbol_length hts)]
    cases ts with
    | nil => exact absurd (Ahead.symbol_length hts) (by simpa [← String.length_toList] using hs)
    | cons t ts => exact .put (List.drop_suffix _ _) (.pure _)

theorem symbol? {s : String} (hs : s.toList ≠ []) (hcomma : ',' ∉ s.toList) : Follows c (symbol? s) (Parse.symbol? s) :=
  .when (.symbol hs hcomma) (.symbol hs)

theorem word? (w : String) : Follows c (word? w) (Parse.word? w) := .when (.word w) anyWord

theorem lifetime? : Follows c lifetime? Parse.lifetime? := .when .lifetime lifetime

theorem literal : Follows c literal Parse.literal
  | [] | .lifetime _ _ :: _ | .group _ _ _ _ :: _ => .fail fun _ h => by cases h
  | .literal _ _ :: _ => .look (.put (List.suffix_cons _ _) (.pure _))
  | .ident _ _ :: _ => .look (.ite rfl (.put (List.suffix_cons _ _) (.pure _)) .refuse)
  | .punct x _ _ :: ts => by
    by_cases hx : x = '-'
    · subst hx
      cases ts with
      | nil => exact .fail fun _ h => by cases h
      | cons t ts =>
        cases t with
        | literal t p =>
          exact .look (.ite rfl (.put ((List.suffix_cons _ _).trans (List.suffix_cons _ _)) (.pure _)) .refuse)
        | _ => exact .fail fun _ h => by cases h
    · exact .fail fun _ h => by simpa [Steady.literal_punct hx] using ahead_literal h

theorem anyGroup : Follows c anyGroup Parse.anyGroup
  | [] | .ident _ _ :: _ | .literal _ _ :: _ | .punct _ _ _ :: _ | .lifetime _ _ :: _ => .fail fun _ h => by cases h
  | .group _ _ _ _ :: _ => .look (.put (List.suffix_cons _ _) (.pure _))

theorem group (d : Delimiter) (p : Parser (List Tree)) : Follows c (group d p) (Parse.group d p)
  | [] | .ident _ _ :: _ | .literal _ _ :: _ | .punct _ _ _ :: _ | .lifetime _ _ :: _ => .fail fun _ h => by cases h
  | .group _ _ _ _ :: _ => .look (.ite rfl (.put (List.suffix_cons _ _) (.bind .within fun _ => .pure _)) .refuse)

end Follows

/-! ### Repetition

The number of turns is bounded by the number of tokens, which a comma adds to. Either bound is large enough. -/

theorem repeatFuel_of_not {test : List TokenTree → Bool} (h : test ts = false) (n : Nat) :
    repeatFuel test p n ts = .ok ([], ts) := by
  cases n with
  | zero => rfl
  | succ n =>
    change (if test ts then _ else _ : Parser (List α)) ts = _
    rw [h]
    rfl

namespace FollowsAt

variable {test stop : List TokenTree → Bool} {sep : String} {p q : Parser Tree} {n m : Nat}

theorem repeatFuel_of_not {p q : Parser α} (ht : Steady c test) (h : test ts = false) :
    FollowsAt c ts (repeatFuel test p n) (repeatFuel test q m) where
  reads hp := by
    rw [Parse.repeatFuel_of_not h] at hp
    cases hp
    exact Parse.repeatFuel_of_not ((ht ts).trans h) m
  ends hp := by
    rw [Parse.repeatFuel_of_not h] at hp
    cases hp
    exact List.suffix_rfl

theorem repeatFuel {p q : Parser α} [Takes p] (ht : Steady c test) (hnil : test [] = false) (hp : Follows c p q)
    (hn : ts.length ≤ n) (hm : ts.length ≤ m) : FollowsAt c ts (repeatFuel test p n) (repeatFuel test q m) := by
  induction n generalizing ts m with
  | zero =>
    obtain rfl := List.eq_nil_of_length_eq_zero (Nat.le_zero.mp hn)
    exact .repeatFuel_of_not ht hnil
  | succ n ih =>
    by_cases hts : ts = []
    · subst hts
      exact .repeatFuel_of_not ht hnil
    · have hpos := List.length_pos_iff.mpr hts
      obtain ⟨m, rfl⟩ : ∃ k, m = k + 1 := Nat.exists_eq_succ_of_ne_zero (by omega)
      refine .look (.ite (ht ts) (.step (hp ts) fun {a mid} ha => ?_) (.pure _))
      have hlt := (hp ts).length_lt ha
      exact .bind (ih (by omega) (by omega)) fun _ => .pure _

theorem separatedFuel (hstop : Steady c stop) (hsep : sep.toList ≠ []) (hp : Follows c p q) (hn : ts.length < n)
    (hm : ts.length < m) : FollowsAt c ts (separatedFuel stop sep p n) (separatedFuel stop sep q m) := by
  have := takes_symbol hsep
  induction n generalizing ts m with
  | zero => exact absurd hn (Nat.not_lt_zero _)
  | succ n ih =>
    obtain ⟨m, rfl⟩ : ∃ k, m = k + 1 := Nat.exists_eq_succ_of_ne_zero (by omega)
    refine .look (.ite (hstop ts) (.pure _) (.step (hp ts) fun {a mid} ha => ?_))
    refine .look (.ite (hstop mid) (.pure _) (.step (Follows.symbol hsep mid) fun {s last} hs => ?_))
    have hle := ((hp ts).ends ha).length_le
    have hlt := (Follows.symbol (c := c) hsep mid).length_lt hs
    exact .bind (ih (by omega) (by omega)) fun _ => .pure _

/-- A stop that is a comma is seen only with a comma, where an element would be missing. -/
theorem joinedFuel (hstop : ∀ ts ≠ [], stop (ts ++ c.tokens) = stop ts) (hnil : stop [] = false) (hneeds : ∀ r, p [] ≠ .ok r)
    (hsep : sep.toList ≠ []) (hcomma : ',' ∉ sep.toList) (hp : Follows c p q) (hn : ts.length < n)
    (hm : ts.length < m) : FollowsAt c ts (joinedFuel stop sep p n) (joinedFuel stop sep q m) := by
  have := takes_symbol hsep
  induction n generalizing ts m with
  | zero => exact absurd hn (Nat.not_lt_zero _)
  | succ n ih =>
    obtain ⟨m, rfl⟩ : ∃ k, m = k + 1 := Nat.exists_eq_succ_of_ne_zero (by omega)
    by_cases hts : ts = []
    · subst hts
      refine .fail fun r h => ?_
      change (if stop [] then _ else _ : Parser (List Tree)) [] = _ at h
      rw [hnil] at h
      obtain ⟨_, _⟩ := r
      obtain ⟨a, mid, ha, -⟩ := bind_ok h
      exact hneeds _ ha
    · refine .look (.ite (hstop ts hts) (.pure _) (.step (hp ts) fun {a mid} ha => ?_))
      refine .look (.ite (Steady.symbol hsep hcomma mid) (.step (Follows.symbol hsep mid) fun {s last} hs => ?_) (.pure _))
      have hle := ((hp ts).ends ha).length_le
      have hlt := (Follows.symbol (c := c) hsep mid).length_lt hs
      exact .bind (ih (by omega) (by omega)) fun _ => .pure _

end FollowsAt

namespace Follows

variable {test stop : List TokenTree → Bool} {sep : String} {p q : Parser Tree}

theorem repeatWhile {p q : Parser α} [Takes p] (ht : Steady c test) (hnil : test [] = false) (hp : Follows c p q) :
    Follows c (repeatWhile test p) (Parse.repeatWhile test q) :=
  fun _ => .look (.repeatFuel ht hnil hp (Nat.le_refl _) (by simp))

theorem separated (hstop : Steady c stop) (hsep : sep.toList ≠ []) (hp : Follows c p q) :
    Follows c (separated stop sep p) (Parse.separated stop sep q) :=
  fun _ => .look (.bind (.separatedFuel hstop hsep hp (Nat.lt_succ_self _) (by rw [List.length_append]; omega)) fun _ => .pure _)

theorem joined (hstop : ∀ ts ≠ [], stop (ts ++ c.tokens) = stop ts) (hnil : stop [] = false) (hneeds : ∀ r, p [] ≠ .ok r)
    (hsep : sep.toList ≠ []) (hcomma : ',' ∉ sep.toList) (hp : Follows c p q) :
    Follows c (joined stop sep p) (Parse.joined stop sep q) := fun _ =>
  .look (.bind (.joinedFuel hstop hnil hneeds hsep hcomma hp (Nat.lt_succ_self _) (by rw [List.length_append]; omega)) fun _ => .pure _)

end Follows

end

end CallProbe.Source.Parse
