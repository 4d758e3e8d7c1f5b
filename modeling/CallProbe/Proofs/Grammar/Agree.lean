import CallProbe.Proofs.Marked.Reading
import CallProbe.Source.Grammar

/-! # Parsers that agree

Two parsers agree on few tokens if they give the same there. The rules of the grammar are written against a way to reach
other rules, and a rule agrees with itself for two ways that agree: on fewer tokens for whatever follows a token that is
taken, on as many only for the few goals that a rule starts with. Each combinator of the grammar has its lemma here. -/

namespace CallProbe.Source

/-! ### Counting tokens -/

@[simp]
theorem tokenCount_nil : tokenCount [] = 0 := rfl

@[simp]
theorem tokenCount_cons (t : TokenTree) (ts : List TokenTree) : tokenCount (t :: ts) = t.size + tokenCount ts := rfl

@[simp]
theorem size_group (d : Delimiter) (o c : Pos) (content : List TokenTree) :
    (TokenTree.group d o content c).size = tokenCount content + 1 := rfl

theorem size_pos (t : TokenTree) : 0 < t.size := by
  cases t <;> simp [TokenTree.size]

theorem tokenCount_drop_le (k : Nat) (ts : List TokenTree) : tokenCount (ts.drop k) ≤ tokenCount ts := by
  induction k generalizing ts with
  | zero => exact Nat.le_refl _
  | succ k ih =>
    cases ts with
    | nil => exact Nat.le_refl _
    | cons t ts =>
      have := ih ts
      rw [List.drop_succ_cons, tokenCount_cons]
      omega

theorem tokenCount_drop_lt {k : Nat} {ts : List TokenTree} (hk : k ≠ 0) (hts : ts ≠ []) :
    tokenCount (ts.drop k) < tokenCount ts := by
  obtain ⟨k, rfl⟩ := Nat.exists_eq_succ_of_ne_zero hk
  cases ts with
  | nil => exact absurd rfl hts
  | cons t ts =>
    have hrest := tokenCount_drop_le k ts
    have hpos := size_pos t
    rw [List.drop_succ_cons, tokenCount_cons]
    omega

theorem tokenCount_tail_lt {n : Nat} {ts : List TokenTree} (hn : 0 < n) (hts : tokenCount ts ≤ n) :
    tokenCount (ts.drop 1) < n := by
  cases ts with
  | nil => exact hn
  | cons t ts =>
    have hpos := size_pos t
    rw [tokenCount_cons] at hts
    rw [List.drop_one, List.tail_cons]
    omega

namespace Parse

variable {α β : Type} {p q : Parser α} {n m : Nat}

/-! ### Parsers that take tokens -/

/-- A parser that leaves no more tokens than it was given. -/
class Keeps (p : Parser α) : Prop where
  le : ∀ {ts a rest}, p ts = .ok (a, rest) → tokenCount rest ≤ tokenCount ts

/-- A parser that takes a token. -/
class Takes (p : Parser α) : Prop where
  lt : ∀ {ts a rest}, p ts = .ok (a, rest) → tokenCount rest < tokenCount ts

instance [h : Takes p] : Keeps p := ⟨fun hp => Nat.le_of_lt (h.lt hp)⟩

instance (a : α) : Keeps (pure a : Parser α) := ⟨fun h => (pure_ok h).2 ▸ Nat.le_refl _⟩

instance : Takes (refuse : Parser α) := ⟨fun h => by cases h⟩

instance (what : String) : Takes (expect what : Parser α) := ⟨fun h => by cases h⟩

instance : Keeps (get : Parser (List TokenTree)) := ⟨fun h => by cases h; exact Nat.le_refl _⟩

instance [hp : Keeps p] {f : α → Parser β} [hf : ∀ a, Keeps (f a)] : Keeps (p >>= f) := ⟨fun h => by
  obtain ⟨a, mid, hfirst, hrest⟩ := bind_ok h
  exact Nat.le_trans ((hf a).le hrest) (hp.le hfirst)⟩

instance [hp : Takes p] {f : α → Parser β} [hf : ∀ a, Keeps (f a)] : Takes (p >>= f) := ⟨fun h => by
  obtain ⟨a, mid, hfirst, hrest⟩ := bind_ok h
  exact Nat.lt_of_le_of_lt ((hf a).le hrest) (hp.lt hfirst)⟩

instance {c : Prop} [Decidable c] [hp : Keeps p] [hq : Keeps q] : Keeps (if c then p else q) := by
  split
  · exact hp
  · exact hq

instance {c : Prop} [Decidable c] [hp : Takes p] [hq : Takes q] : Takes (if c then p else q) := by
  split
  · exact hp
  · exact hq

theorem keeps_look {f : List TokenTree → Parser α}
    (h : ∀ ts a rest, f ts ts = .ok (a, rest) → tokenCount rest ≤ tokenCount ts) : Keeps (get >>= f) :=
  ⟨fun {ts a rest} hf => h ts a rest hf⟩

theorem takes_look {f : List TokenTree → Parser α}
    (h : ∀ ts a rest, f ts ts = .ok (a, rest) → tokenCount rest < tokenCount ts) : Takes (get >>= f) :=
  ⟨fun {ts a rest} hf => h ts a rest hf⟩

instance : Takes anyWord := takes_look fun ts _ _ h => by
  split at h
  · cases h
    simp [TokenTree.size]
  · cases h

instance (w : String) : Takes (word w) := takes_look fun ts _ _ h => by
  split at h
  · exact Takes.lt h
  · cases h

instance : Takes name := takes_look fun ts _ _ h => by
  split at h
  · exact Takes.lt h
  · cases h

instance : Takes lifetime := takes_look fun ts _ _ h => by
  split at h
  · cases h
    simp [TokenTree.size]
  · cases h

instance : Takes literal := takes_look fun ts _ _ h => by
  split at h
  · cases h
    simp [TokenTree.size]
  · split at h
    · cases h
      simp [TokenTree.size]
    · cases h
  · split at h
    · cases h
      simp [TokenTree.size]
      omega
    · cases h
  · cases h

instance : Takes anyGroup := takes_look fun ts _ _ h => by
  split at h
  · cases h
    simp
  · cases h

/-- An operator that is not empty is taken. -/
theorem takes_symbol {s : String} (hs : s.toList ≠ []) : Takes (symbol s) := takes_look fun ts _ _ h => by
  split at h
  · rename_i hahead
    cases h
    refine tokenCount_drop_lt (fun hlength => hs ?_) fun hnil => ?_
    · exact List.length_eq_zero_iff.mp (String.length_toList.trans hlength)
    · rw [hnil, Ahead.symbol] at hahead
      cases hchars : s.toList with
      | nil => exact hs hchars
      | cons c cs =>
        rw [hchars] at hahead
        cases cs <;> cases hahead
  · cases h

instance (s : String) : Keeps (symbol s) := keeps_look fun ts _ _ h => by
  split at h
  · cases h
    exact tokenCount_drop_le _ _
  · cases h

instance {test : List TokenTree → Bool} {p : Parser Tree} [Keeps p] : Keeps (whenAhead test p) := by
  unfold whenAhead
  infer_instance

instance {c : Bool} {p : Parser Tree} [Keeps p] : Keeps (partWhen c p) := by
  unfold partWhen
  infer_instance

instance [h : Keeps p] : Keeps (attempt p) := ⟨fun {ts a rest} hp => by
  rw [attempt] at hp
  split at hp
  · rename_i hp'
    cases hp
    exact h.le hp'
  · cases hp
    exact Nat.le_refl _⟩

instance (test : List TokenTree → Bool) : Keeps (ahead test) := by
  unfold ahead
  infer_instance

instance (w : String) : Keeps (word? w) := inferInstanceAs (Keeps (whenAhead _ _))

instance (s : String) : Keeps (symbol? s) := inferInstanceAs (Keeps (whenAhead _ _))

instance : Keeps lifetime? := inferInstanceAs (Keeps (whenAhead _ _))

instance (start : List TokenTree) : Keeps (takenSince start) := by
  unfold takenSince
  infer_instance

instance (kind : Kind) (start : List TokenTree) : Keeps (passed kind start) := by
  unfold passed
  infer_instance

instance {test : List TokenTree → Bool} [Keeps p] (fuel : Nat) : Keeps (repeatFuel test p fuel) := by
  induction fuel with
  | zero => exact inferInstanceAs (Keeps (pure []))
  | succ fuel ih =>
    unfold repeatFuel
    infer_instance

instance {test : List TokenTree → Bool} [Keeps p] : Keeps (repeatWhile test p) := by
  unfold repeatWhile
  infer_instance

instance {stop : List TokenTree → Bool} {sep : String} {p : Parser Tree} [Keeps p] (fuel : Nat) :
    Keeps (separatedFuel stop sep p fuel) := by
  induction fuel with
  | zero => exact inferInstanceAs (Keeps (pure []))
  | succ fuel ih =>
    unfold separatedFuel
    infer_instance

instance {stop : List TokenTree → Bool} {sep : String} {p : Parser Tree} [Keeps p] : Keeps (separated stop sep p) := by
  unfold separated
  infer_instance

instance {stop : List TokenTree → Bool} {sep : String} {p : Parser Tree} [Keeps p] (fuel : Nat) :
    Keeps (joinedFuel stop sep p fuel) := by
  induction fuel with
  | zero => exact inferInstanceAs (Keeps (pure []))
  | succ fuel ih =>
    unfold joinedFuel
    infer_instance

instance {stop : List TokenTree → Bool} {sep : String} {p : Parser Tree} [Keeps p] : Keeps (joined stop sep p) := by
  unfold joined
  infer_instance

instance : Keeps plainPath := by
  unfold plainPath
  infer_instance

/-- A bracketed part is one token, whatever is read of its content. -/
instance (d : Delimiter) (p : Parser (List Tree)) : Takes (group d p) := ⟨fun {ts t rest} h => by
  obtain ⟨o, content, c, rfl⟩ := group_rest h
  simp⟩

/-! ### Agreement -/

/-- Two parsers do the same on at most so many tokens, and do not leave more. -/
structure Agree (n : Nat) (p q : Parser α) : Prop where
  same : ∀ {ts}, tokenCount ts ≤ n → p ts = q ts
  left : ∀ {ts a rest}, tokenCount ts ≤ n → p ts = .ok (a, rest) → tokenCount rest ≤ n

/-- Two ways to reach goals agree on fewer tokens. -/
def Below (n : Nat) (r r' : Reach) : Prop := ∀ m < n, ∀ goal, Agree m (r goal) (r' goal)

/-- Two ways to reach goals agree on at most so many tokens. -/
structure Linked (n : Nat) (r r' : Reach) : Prop where
  below : Below n r r'
  reach : ∀ goal, Agree n (r goal) (r' goal)

variable {f g : α → Parser β} {r r' : Reach}

theorem Below.linked (h : Below n r r') (hm : m < n) : Linked m r r' :=
  ⟨fun k hk => h k (Nat.lt_trans hk hm), h m hm⟩

namespace Agree

theorem plain [h : Keeps p] : Agree n p p := ⟨fun _ => rfl, fun hts hp => Nat.le_trans (h.le hp) hts⟩

theorem pure (a : α) : Agree n (pure a : Parser α) (pure a) := .plain

theorem bind (hp : Agree n p q) (hf : ∀ a, Agree n (f a) (g a)) : Agree n (p >>= f) (q >>= g) where
  same {ts} hts := by
    change (p ts).bind (fun r => f r.1 r.2) = (q ts).bind (fun r => g r.1 r.2)
    rw [← hp.same hts]
    cases hr : p ts with
    | error e => rfl
    | ok r => exact (hf r.1).same (hp.left hts hr)
  left hts h := by
    obtain ⟨a, mid, ha, hb⟩ := bind_ok h
    exact (hf a).left (hp.left hts ha) hb

/-- Behind a token that is taken, fewer tokens are left. -/
theorem enter [ht : Takes p] (hp : Agree n p q) (hf : ∀ m < n, ∀ a, Agree m (f a) (g a)) :
    Agree n (p >>= f) (q >>= g) where
  same {ts} hts := by
    change (p ts).bind (fun r => f r.1 r.2) = (q ts).bind (fun r => g r.1 r.2)
    rw [← hp.same hts]
    cases hr : p ts with
    | error e => rfl
    | ok r => exact (hf _ (Nat.lt_of_lt_of_le (ht.lt hr) hts) r.1).same (Nat.le_refl _)
  left hts h := by
    obtain ⟨a, mid, ha, hb⟩ := bind_ok h
    have hm := Nat.lt_of_lt_of_le (ht.lt ha) hts
    exact Nat.le_trans ((hf _ hm a).left (Nat.le_refl _) hb) (Nat.le_of_lt hm)

/-- What a parser is made of is looked at one by one. -/
theorem assoc {γ : Type} {f g : α → Parser β} {k l : β → Parser γ}
    (h : Agree n (p >>= fun a => f a >>= k) (q >>= fun a => g a >>= l)) : Agree n ((p >>= f) >>= k) ((q >>= g) >>= l) := by
  rwa [bind_assoc, bind_assoc]

theorem keep [Keeps p] (hf : ∀ a, Agree n (f a) (g a)) : Agree n (p >>= f) (p >>= g) := .bind .plain hf

/-- A parser may look at the tokens. -/
theorem look {f g : List TokenTree → Parser α} (h : ∀ ts, tokenCount ts ≤ n → Agree n (f ts) (g ts)) :
    Agree n (get >>= f) (get >>= g) where
  same hts := (h _ hts).same hts
  left hts hf := (h _ hts).left hts hf

/-- A parser may go back to tokens that were there before. -/
theorem put {start : List TokenTree} {f g : Unit → Parser α} (hstart : tokenCount start ≤ n) (h : Agree n (f ()) (g ())) :
    Agree n (set start >>= f) (set start >>= g) where
  same _ := h.same hstart
  left _ hf := h.left hstart hf

/-- A parser may go back to other tokens to see what is wrong with them. -/
theorem abandon {start : List TokenTree} (hstart : tokenCount start ≤ m) (h : Agree m p q) :
    Agree n (do set start; let _ ← p; Parse.refuse : Parser β) (do set start; let _ ← q; Parse.refuse) where
  same _ := by
    change (p start).bind (fun r => Parse.refuse r.2) = (q start).bind (fun r => Parse.refuse r.2)
    rw [h.same hstart]
  left _ hp := by
    obtain ⟨_, _, _, hp⟩ := bind_ok hp
    obtain ⟨_, _, _, hp⟩ := bind_ok hp
    cases hp

theorem ite {c : Prop} [Decidable c] {p' q' : Parser α} (hp : Agree n p p') (hq : Agree n q q') :
    Agree n (if c then p else q) (if c then p' else q') := by
  split
  · exact hp
  · exact hq

theorem refuse : Agree n (refuse : Parser α) Parse.refuse := .plain

/-- Whatever comes after tokens are refused. -/
theorem refused : Agree n ((Parse.refuse : Parser α) >>= f) (Parse.refuse >>= g) := ⟨fun _ => rfl, fun _ h => by cases h⟩

/-- A check that may refuse the tokens. -/
theorem check {c : Prop} [Decidable c] {f g : Unit → Parser α} (h : Agree n (f ()) (g ())) :
    Agree n (if c then Parse.refuse >>= f else f ()) (if c then Parse.refuse >>= g else g ()) :=
  .ite .refused h

theorem when {test : List TokenTree → Bool} {p q : Parser Tree} (h : Agree n p q) :
    Agree n (whenAhead test p) (whenAhead test q) :=
  .look fun _ _ => .ite h .plain

theorem part {c : Bool} {p q : Parser Tree} (h : Agree n p q) : Agree n (partWhen c p) (partWhen c q) := .ite h .plain

theorem attempt (h : Agree n p q) : Agree n (attempt p) (attempt q) where
  same {ts} hts := by rw [Parse.attempt, Parse.attempt, h.same hts]
  left hts hp := by
    rw [Parse.attempt] at hp
    split at hp
    · rename_i hp'
      cases hp
      exact h.left hts hp'
    · cases hp
      exact hts

theorem within {content : List TokenTree} (h : Agree m p q) (hcontent : tokenCount content ≤ m) :
    Agree n (within content p) (within content q) where
  same {ts} _ := by rw [Parse.within, Parse.within, h.same hcontent]
  left hts hp := by
    rw [Parse.within] at hp
    split at hp <;> cases hp
    exact hts

theorem group {d : Delimiter} {p q : Parser (List Tree)} (h : ∀ m < n, Agree m p q) :
    Agree n (group d p) (group d q) :=
  .look fun ts hts => by
    split
    · rename_i e o content c rest
      rw [tokenCount_cons, size_group] at hts
      refine .ite (.put (by omega) (.bind ?_ fun _ => .plain)) .plain
      exact .within (h (tokenCount content) (by omega)) (Nat.le_refl _)
    · exact .plain

/-- The content of a bracketed part and what follows it are fewer tokens. -/
theorem anyGroup {f g : Delimiter × Pos × List TokenTree × Pos → Parser α}
    (h : ∀ d o content c, ∀ m < n, tokenCount content < n → Agree m (f (d, o, content, c)) (g (d, o, content, c))) :
    Agree n (anyGroup >>= f) (anyGroup >>= g) where
  same {ts} hts := by
    cases ts with
    | nil => rfl
    | cons t rest =>
      cases t with
      | group d o content c =>
        rw [tokenCount_cons, size_group] at hts
        exact (h d o content c (tokenCount rest) (by omega) (by omega)).same (Nat.le_refl _)
      | ident | lifetime | literal | punct => rfl
  left {ts b rest} hts hp := by
    obtain ⟨⟨d, o, content, c⟩, mid, hgroup, hp⟩ := bind_ok hp
    cases ts with
    | nil => cases hgroup
    | cons t ts =>
      cases t with
      | group d o content c =>
        cases hgroup
        rw [tokenCount_cons, size_group] at hts
        have hleft := (h d o content c (tokenCount mid) (by omega) (by omega)).left (Nat.le_refl _) hp
        omega
      | ident | lifetime | literal | punct => cases hgroup

theorem repeatFuel {test : List TokenTree → Bool} (h : Agree n p q) (fuel : Nat) :
    Agree n (repeatFuel test p fuel) (repeatFuel test q fuel) := by
  induction fuel with
  | zero => exact .pure []
  | succ fuel ih => exact .look fun ts hts => .ite (.bind h fun a => .bind ih fun as => .plain) .plain

theorem repeatWhile {test : List TokenTree → Bool} (h : Agree n p q) :
    Agree n (repeatWhile test p) (repeatWhile test q) :=
  .look fun _ _ => .repeatFuel h _

variable {stop : List TokenTree → Bool} {sep : String} {p q : Parser Tree}

theorem separatedFuel (h : Agree n p q) (fuel : Nat) :
    Agree n (separatedFuel stop sep p fuel) (separatedFuel stop sep q fuel) := by
  induction fuel with
  | zero => exact .pure []
  | succ fuel ih =>
    refine .look fun ts hts => .ite .plain (.bind h fun a => .look fun ts hts => .ite .plain ?_)
    exact .keep fun s => .bind ih fun as => .plain

theorem separated (h : Agree n p q) : Agree n (separated stop sep p) (separated stop sep q) :=
  .look fun _ _ => .bind (.separatedFuel h _) fun _ => .plain

theorem commas (h : Agree n p q) : Agree n (commas p) (commas q) := .separated h

theorem joinedFuel (h : Agree n p q) (fuel : Nat) :
    Agree n (joinedFuel stop sep p fuel) (joinedFuel stop sep q fuel) := by
  induction fuel with
  | zero => exact .pure []
  | succ fuel ih =>
    refine .look fun ts hts => .ite .plain (.bind h fun a => .look fun ts hts => .ite ?_ .plain)
    exact .keep fun s => .bind ih fun as => .plain

theorem joined (h : Agree n p q) : Agree n (joined stop sep p) (joined stop sep q) :=
  .look fun _ _ => .bind (.joinedFuel h _) fun _ => .plain

end Agree

/-! ### Behind a token -/

namespace Below

theorem take [Takes p] (h : Below n r r') (hf : ∀ m, Linked m r r' → ∀ a, Agree m (f a) (g a)) :
    Agree n (p >>= f) (p >>= g) :=
  .enter .plain fun m hm => hf m (h.linked hm)

theorem symbol {s : String} {f g : Tree → Parser α} (h : Below n r r') (hs : s.toList ≠ [])
    (hf : ∀ m, Linked m r r' → ∀ a, Agree m (f a) (g a)) :
    Agree n (symbol s >>= f) (symbol s >>= g) :=
  have := takes_symbol hs
  h.take hf

theorem group {d : Delimiter} {p q : Parser (List Tree)} (h : Below n r r') (hp : ∀ m, Linked m r r' → Agree m p q) :
    Agree n (group d p) (group d q) :=
  .group fun m hm => hp m (h.linked hm)

/-- What stands in brackets, and what stands behind them, are fewer tokens. -/
theorem content {d : Delimiter} {o c : Pos} {content rest : List TokenTree} (h : Below n r r')
    (hts : tokenCount (.group d o content c :: rest) ≤ n) : Linked (tokenCount content) r r' ∧ tokenCount rest ≤ n := by
  rw [tokenCount_cons, size_group] at hts
  exact ⟨h.linked (by omega), by omega⟩

/-- Elements between commas in brackets. -/
theorem elements {d : Delimiter} {p q : Parser Tree} (h : Below n r r') (hp : ∀ m, Linked m r r' → Agree m p q) :
    Agree n (Parse.group d do return [← commas p]) (Parse.group d do return [← commas q]) :=
  h.group fun m h => .bind (.commas (hp m h)) fun _ => .plain

end Below

/-! ### Attributes -/

theorem attrMeta_agree (h : Linked n r r') : Agree n (attrMeta r) (attrMeta r') := by
  refine .look fun ts _ => .ite (.keep fun path => ?_) (.keep fun path => ?_)
  all_goals
    refine .look fun ts _ => ?_
    split
    · exact .plain
    · refine .ite (.keep fun eq => .look fun ts _ => .keep fun value => ?_) .plain
      split
      · exact .plain
      · exact .check (.bind (h.reach _) fun _ => .plain)

theorem outerAttr_agree (h : Below n r r') : Agree n (outerAttr r) (outerAttr r') :=
  .keep fun _ => .bind (h.group fun _ h => .bind (attrMeta_agree h) fun _ => .plain) fun _ => .plain

theorem innerAttr_agree (h : Below n r r') : Agree n (innerAttr r) (innerAttr r') :=
  .keep fun _ => .keep fun _ => .bind (h.group fun _ h => .bind (attrMeta_agree h) fun _ => .plain) fun _ => .plain

theorem outerAttrs_agree (h : Below n r r') : Agree n (outerAttrs r) (outerAttrs r') :=
  .bind (.repeatWhile (outerAttr_agree h)) fun _ => .plain

theorem innerAttrs_agree (h : Below n r r') : Agree n (innerAttrs r) (innerAttrs r') :=
  .bind (.repeatWhile (innerAttr_agree h)) fun _ => .plain

end Parse

end CallProbe.Source
