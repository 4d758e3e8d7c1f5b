import CallProbe.Proofs.Reading.Plain

/-! # Paths

In an expression, the generic arguments of a name have two colons in front; in a type they may have. A path with types for
arguments is read as it is written, by induction on its segments, each with its arguments (`Generic.reads`). -/

namespace CallProbe.Source.Parse

open Grammar Grouping

variable {structs inExpr : Bool} {path t s args : Tree} {ts rest : List TokenTree} {more : List Tree} {n : String} {p q : Pos}

/-! ### Names -/

/-- Names that have a meaning of their own at some place. -/
def reserved : List String := Ahead.keywords ++ ["builtin", "raw", "union", "auto", "default"]

/-- A name that means nothing but itself. -/
def IsName (n : String) : Prop := reserved.contains n = false

instance (n : String) : Decidable (IsName n) := inferInstanceAs (Decidable (reserved.contains n = false))

theorem IsName.keyword {n : String} (hn : IsName n) : Ahead.keywords.contains n = false := by
  unfold IsName reserved at hn
  simp only [List.contains_eq_mem, List.mem_append, decide_eq_false_iff_not, not_or] at hn ⊢
  exact hn.1

theorem IsName.ne {n w : String} (hn : IsName n) (hw : reserved.contains w = true) : n ≠ w := by
  rintro rfl
  rw [hn] at hw
  cases hw

theorem IsName.word {n w : String} (hn : IsName n) (hw : reserved.contains w = true) (p : Pos) (ts : List TokenTree) :
    Ahead.word w (.ident n p :: ts) = false := by
  rw [Ahead.word, beq_eq_false_iff_ne]
  exact hn.ne hw

theorem IsName.oneOf {n : String} (hn : IsName n) {ws : List String} (hws : ws.all reserved.contains = true) (p : Pos)
    (ts : List TokenTree) : Ahead.oneOf ws (.ident n p :: ts) = false := by
  rw [Ahead.oneOf, List.contains_eq_mem, decide_eq_false_iff_not]
  intro hmem
  have hw := List.all_eq_true.mp hws n hmem
  rw [hn] at hw
  cases hw

/-- A name, or a word that stands for a place at the start of a path. -/
def Starts (n : String) : Prop := IsName n ∨ n ∈ pathWords

instance (n : String) : Decidable (Starts n) := inferInstanceAs (Decidable (IsName n ∨ n ∈ pathWords))

theorem Starts.ne {n w : String} (hn : Starts n) (hw : (reserved.contains w && !pathWords.contains w) = true) : n ≠ w := by
  simp only [Bool.and_eq_true, Bool.not_eq_true'] at hw
  rcases hn with hn | hn
  · exact hn.ne hw.1
  · rintro rfl
    simp [hn] at hw

theorem Starts.word {n w : String} (hn : Starts n) (hw : (reserved.contains w && !pathWords.contains w) = true) (p : Pos)
    (ts : List TokenTree) : Ahead.word w (.ident n p :: ts) = false := by
  rw [Ahead.word, beq_eq_false_iff_ne]
  exact hn.ne hw

theorem Starts.oneOf {n : String} (hn : Starts n) {ws : List String}
    (hws : (ws.all fun w => reserved.contains w && !pathWords.contains w) = true) (p : Pos) (ts : List TokenTree) :
    Ahead.oneOf ws (.ident n p :: ts) = false := by
  rw [Ahead.oneOf, List.contains_eq_mem, decide_eq_false_iff_not]
  exact fun hmem => hn.ne (List.all_eq_true.mp hws n hmem) rfl

theorem Starts.ahead (hn : Starts n) (p : Pos) (ts : List TokenTree) :
    (Ahead.name (.ident n p :: ts) || Ahead.oneOf pathWords (.ident n p :: ts)) = true := by
  rcases hn with hn | hn
  · rw [Ahead.name, hn.keyword]
    rfl
  · simp [Ahead.oneOf, hn]

def segmentOf (n : String) (p : Pos) : Tree := .node .segment [.leaf (.word n p), .absent]

/-- Tokens behind a name that are no generic arguments of it. In an expression, these have two colons in front. -/
structure Unargued (inExpr : Bool) (ts : List TokenTree) : Prop where
  turbofish : (Ahead.symbol "::" ts && Ahead.symbol "<" (ts.drop 2)) = false
  angle : inExpr = false → Ahead.symbol "<" ts = false

theorem segment_ok {inExpr : Bool} {n : String} (hn : IsName n) (p : Pos) (hts : Unargued inExpr ts) :
    segment reach inExpr (.ident n p :: ts) = .ok (segmentOf n p, ts) := by
  have hangle : (!inExpr && Ahead.symbol "<" ts) = false := by
    cases inExpr
    · simp [hts.angle rfl]
    · rfl
  have hspecial : Ahead.oneOf ["super", "self", "crate", "try"] (.ident n p :: ts) = false := hn.oneOf (by decide) p ts
  rw [segment, segmentWith, bind_get, if_neg (by simp [hspecial])]
  rw [if_neg (by simp [hn.word (w := "Self") (by decide)]), bind_of_ok (name_ok hn.keyword p ts)]
  dsimp only
  rw [bind_get, if_neg (by simp [hts.turbofish, hangle])]
  rfl

theorem segment_start {inExpr : Bool} {n : String} (hn : Starts n) (p : Pos) (hts : Unargued inExpr ts) :
    segment reach inExpr (.ident n p :: ts) = .ok (segmentOf n p, ts) := by
  rcases hn with hn | hn
  · exact segment_ok hn p hts
  · have hangle : (!inExpr && Ahead.symbol "<" ts) = false := by
      cases inExpr
      · simp [hts.angle rfl]
      · rfl
    simp only [pathWords, List.mem_cons, List.not_mem_nil, or_false] at hn
    rcases hn with rfl | rfl | rfl | rfl
    · rfl
    · rfl
    · have hself : anyWord (.ident "Self" p :: ts) = .ok (.leaf (.word "Self" p), ts) := rfl
      have hspecial : Ahead.oneOf ["super", "self", "crate", "try"] (.ident "Self" p :: ts) = false := rfl
      have hword : Ahead.word "Self" (.ident "Self" p :: ts) = true := rfl
      rw [segment, segmentWith, bind_get, if_neg (by simp [hspecial]), if_pos hword, bind_of_ok hself]
      dsimp only
      rw [bind_get, if_neg (by simp [hts.turbofish, hangle])]
      rfl
    · rfl

theorem Starts.front (hn : Starts n) (p : Pos) (ts : List TokenTree) : Fronts (.ident n p :: ts) :=
  ⟨⟨hn.word (by decide) .., rfl, rfl, rfl, rfl⟩, by simpa [exprAhead] using hn.ne (by decide), hn.word (by decide) ..,
    hn.word (by decide) ..⟩

/-- A name opens an operand that starts with a path. -/
theorem Starts.atom_eq (hn : Starts n) (p : Pos) (ts : List TokenTree) :
    atom reach structs (.ident n p :: ts) = pathExpr reach structs (.ident n p :: ts) := by
  have hword {w : String} (hw : (reserved.contains w && !pathWords.contains w) = true) :
      Ahead.word w (.ident n p :: ts) = false := hn.word hw p _
  have hliteral : Ahead.literal (.ident n p :: ts) = false := by
    simp [Ahead.literal, hn.ne (w := "true") (by decide), hn.ne (w := "false") (by decide)]
  have hclosure : closureAhead (.ident n p :: ts) = false := by
    simp [closureAhead, closureLifetimesAhead, Ahead.symbol, Ahead.chars, hword (w := "move") (by decide),
      hword (w := "for") (by decide), hword (w := "const") (by decide), hword (w := "static") (by decide),
      hword (w := "async") (by decide)]
  rw [Parse.atom, bind_get, if_neg (by simp [hliteral]), if_neg (by simp [hword (w := "async") (by decide)]),
    if_neg (by simp [hword (w := "try") (by decide)]), if_neg (by simp [hclosure]),
    if_neg (by simp [hword (w := "builtin") (by decide)]), if_pos]
  rcases Bool.or_eq_true_iff.mp (hn.ahead p ts) with hname | hpathWord
  · simp [hname]
  · simp [hpathWord]

/-! ### Types -/

/-- Tokens behind a type that do not belong to it. -/
structure AfterType (ts : List TokenTree) : Prop where
  colons : Ahead.symbol "::" ts = false
  angle : Ahead.symbol "<" ts = false
  bang : Ahead.symbol "!" ts = false
  plus : Ahead.symbol "+" ts = false

/-- A name opens a type that is a path. -/
theorem Starts.type_eq (hn : Starts n) (p : Pos) (plus : Bool) (ts : List TokenTree) :
    Parse.type reach plus (.ident n p :: ts) = pathType reach plus .absent (.ident n p :: ts) := by
  have hfor : whenAhead (Ahead.word "for") (boundLifetimes reach) (.ident n p :: ts) = .ok (.absent, .ident n p :: ts) :=
    whenAhead_not (hn.word (by decide) p _)
  have hfn : Ahead.oneOf ["fn", "unsafe", "extern"] (.ident n p :: ts) = false := hn.oneOf (by decide) p _
  have hparen : Ahead.group .paren (.ident n p :: ts) = false := rfl
  rw [Parse.type, bind_of_ok hfor, bind_get, if_neg (by simp [Tree.isPresent, Tree.absent])]
  dsimp only
  rw [if_neg (by simp [hparen]), if_neg (by simp [hfn]), if_pos (by simp [hn.ahead p ts])]

/-- Tokens that a type starts with, none of which starts a lifetime or a constant among generic arguments. -/
structure BeginsArg (ts : List TokenTree) : Prop where
  lifetime : Ahead.lifetime ts = false
  literal : Ahead.literal ts = false
  brace : Ahead.group .brace ts = false
  close : Ahead.symbol ">" ts = false

/-- A type that is written as it is and reads as it is written. -/
structure ReadsType (t : Tree) : Prop where
  settled : Settled t
  reads : ∀ plus rest, AfterType rest → reach (.type plus) (t.toTokens ++ rest) = .ok (t, rest)
  front : ∀ rest, BeginsArg (t.toTokens ++ rest)

theorem ReadsType.taken (h : ReadsType t) : t.toTokens ≠ [] := by
  intro hnil
  have hclose := (h.front [.punct '>' false Pos.none]).close
  rw [hnil] at hclose
  cases hclose

theorem readsType_infer (p : Pos) : ReadsType (.node .inferType [.leaf (.word "_" p)]) where
  settled := rfl
  reads plus rest _ := by
    rw [reach_eq]
    rfl
  front rest := ⟨rfl, rfl, rfl, rfl⟩

theorem readsType_unit (o c : Pos) : ReadsType (.node .tupleType [.group .paren o [.list []] c]) where
  settled := rfl
  reads plus rest _ := by
    rw [reach_eq]
    rfl
  front rest := ⟨rfl, rfl, rfl, rfl⟩

/-- A reference is a type, with a lifetime or without. -/
theorem ReadsType.reference {life change : Tree} {a : Pos} (h : ReadsType t)
    (hlife : life = .absent ∨ ∃ l q, life = .leaf (.lifetime l q)) (hchange : change = .absent ∨ ∃ q, change = .leaf (.word "mut" q))
    (hmut : ∀ rest, Ahead.word "mut" (t.toTokens ++ rest) = false) :
    ReadsType (.node .referenceType [.leaf (.symbol "&" a), life, change, t]) where
  settled := by
    refine grouped_node (by simp [partCount?]) ?_ {}
    rcases hlife with rfl | ⟨l, q, rfl⟩ <;> rcases hchange with rfl | ⟨r, rfl⟩ <;> simp [settled_leaf, settled_absent, h.settled]
  reads plus rest hrest := by
    have htokens : (Tree.node .referenceType [.leaf (.symbol "&" a), life, change, t]).toTokens ++ rest =
        .punct '&' false a :: (life.toTokens ++ (change.toTokens ++ (t.toTokens ++ rest))) := by
      simp [toTokens_node, toTokens_symbol, operatorTokens]
    have hchanged : word? "mut" (change.toTokens ++ (t.toTokens ++ rest)) = .ok (change, t.toTokens ++ rest) := by
      rcases hchange with rfl | ⟨r, rfl⟩
      · exact whenAhead_not (hmut rest)
      · exact whenAhead_ok rfl (word_ok "mut" r _)
    have hlived : lifetime? (life.toTokens ++ (change.toTokens ++ (t.toTokens ++ rest))) =
        .ok (life, change.toTokens ++ (t.toTokens ++ rest)) := by
      rcases hlife with rfl | ⟨l, q, rfl⟩
      · refine whenAhead_not ?_
        rcases hchange with rfl | ⟨r, rfl⟩
        · exact (h.front rest).lifetime
        · rfl
      · rfl
    have hamp : symbol "&" (.punct '&' false a :: (life.toTokens ++ (change.toTokens ++ (t.toTokens ++ rest)))) =
        .ok (.leaf (.symbol "&" a), life.toTokens ++ (change.toTokens ++ (t.toTokens ++ rest))) := symbol_ok (by decide) a _
    have hread : (do
        let amp ← symbol "&"
        let l ← lifetime?
        let m ← word? "mut"
        return .node .referenceType [amp, l, m, ← reach (.type false)] : Parser Tree)
          (.punct '&' false a :: (life.toTokens ++ (change.toTokens ++ (t.toTokens ++ rest)))) =
        .ok (.node .referenceType [.leaf (.symbol "&" a), life, change, t], rest) := by
      rw [bind_of_ok hamp, bind_of_ok hlived, bind_of_ok hchanged, bind_of_ok (h.reads false rest hrest)]
      rfl
    rw [htokens, reach_eq]
    exact hread
  front rest := by
    simp only [toTokens_node, List.flatMap_cons, toTokens_symbol]
    exact ⟨rfl, rfl, rfl, rfl⟩

/-! ### Arguments -/

/-- Generic arguments, with commas between them. -/
inductive TypeArgs : List Tree → Prop where
  | nil : TypeArgs []
  | last {t : Tree} (ht : ReadsType t) : TypeArgs [.node .typeArg [t]]
  | cons {t : Tree} {p : Pos} {ts : List Tree} (ht : ReadsType t) (h : TypeArgs ts) :
      TypeArgs (.node .typeArg [t] :: .leaf (.symbol "," p) :: ts)

/-- Tokens behind a generic argument. -/
inductive AfterArg : List TokenTree → Prop where
  | comma (p : Pos) (ts : List TokenTree) : AfterArg (.punct ',' false p :: ts)
  | close (p : Pos) (ts : List TokenTree) : AfterArg (.punct '>' false p :: ts)

theorem toTokens_typeArg (t : Tree) : (Tree.node .typeArg [t]).toTokens = t.toTokens := by simp [toTokens_node]

theorem ReadsType.arg (h : ReadsType t) (hrest : AfterArg rest) :
    genericArg reach (t.toTokens ++ rest) = .ok (.node .typeArg [t], rest) := by
  have hafter : AfterType rest := by cases hrest <;> exact ⟨rfl, rfl, rfl, rfl⟩
  have hequals : Ahead.symbol "=" rest = false := by cases hrest <;> rfl
  have hcolon : Ahead.symbol ":" rest = false := by cases hrest <;> rfl
  have hfront := h.front rest
  rw [genericArg, bind_get, if_neg (by simp [hfront.lifetime])]
  dsimp only
  rw [if_neg (by simp [hfront.literal, hfront.brace]), bind_of_ok (h.reads true rest hafter)]
  cases singleSegment? t with
  | none => rfl
  | some r =>
    dsimp only
    rw [bind_get, if_neg (by simp [hequals]), bind_get, if_neg (by simp [hcolon])]
    rfl

theorem TypeArgs.readsFuel {as : List Tree} (h : TypeArgs as) (g : Pos) {k : Nat} (hk : as.length ≤ k) :
    separatedFuel (Ahead.symbol ">") "," (genericArg reach) (k + 1) (as.flatMap Tree.toTokens ++ .punct '>' false g :: ts) =
      .ok (as, .punct '>' false g :: ts) := by
  have hclose : Ahead.symbol ">" (.punct '>' false g :: ts) = true := rfl
  induction h generalizing k with
  | nil => rfl
  | @last t ht =>
    have htokens : [Tree.node .typeArg [t]].flatMap Tree.toTokens = t.toTokens := by simp [toTokens_typeArg]
    rw [htokens, separatedFuel, bind_get, if_neg (by simp [(ht.front _).close]), bind_of_ok (ht.arg (.close g ts)), bind_get,
      if_pos hclose]
    rfl
  | @cons t p as ht h ih =>
    obtain ⟨k, rfl⟩ : ∃ m, k = m + 1 := ⟨k - 1, by simp at hk; omega⟩
    have htokens : (.node .typeArg [t] :: .leaf (.symbol "," p) :: as).flatMap Tree.toTokens ++ .punct '>' false g :: ts =
        t.toTokens ++ .punct ',' false p :: (as.flatMap Tree.toTokens ++ .punct '>' false g :: ts) := by
      simp [toTokens_typeArg, toTokens_symbol, operatorTokens]
    have hcomma : Ahead.symbol ">" (.punct ',' false p :: (as.flatMap Tree.toTokens ++ .punct '>' false g :: ts)) = false := rfl
    have hread : symbol "," (.punct ',' false p :: (as.flatMap Tree.toTokens ++ .punct '>' false g :: ts)) =
        .ok (.leaf (.symbol "," p), as.flatMap Tree.toTokens ++ .punct '>' false g :: ts) := symbol_ok (by decide) p _
    rw [htokens, separatedFuel, bind_get, if_neg (by simp [(ht.front _).close]), bind_of_ok (ht.arg (.comma p _)), bind_get,
      if_neg (by simp [hcomma]), bind_of_ok hread, bind_of_ok (ih (by simp at hk; omega))]
    rfl

theorem TypeArgs.length_le {as : List Tree} (h : TypeArgs as) (g : Pos) :
    as.length ≤ (as.flatMap Tree.toTokens ++ .punct '>' false g :: ts).length := by
  induction h with
  | nil => exact Nat.zero_le _
  | last ht =>
    simp only [List.length_append, List.length_cons, List.length_nil]
    omega
  | @cons t p as ht h ih =>
    have htaken := List.length_pos_iff.mpr ht.taken
    have hcomma : (Tree.leaf (.symbol "," p)).toTokens.length = 1 := rfl
    simp only [List.flatMap_cons, toTokens_typeArg, List.length_append, List.length_cons] at ih ⊢
    omega

theorem unpair_cons (t s : Tree) (rest : List (Tree × Option Tree)) : unpair ((t, some s) :: rest) = t :: s :: unpair rest := by
  cases rest <;> rfl

/-- Types among generic arguments stay in their order, since there are no lifetimes. -/
theorem TypeArgs.lifetimesFirst_eq {as : List Tree} (h : TypeArgs as) : lifetimesFirst .lifetimeArg as = as := by
  have hnone : ∀ x ∈ pairs as, (x.1.kind? == some .lifetimeArg) = false := by
    induction h with
    | nil => simp [pairs]
    | last ht => simp [pairs, Tree.kind?]
    | cons ht h ih => simpa [pairs, Tree.kind?] using ih
  have hpairs : unpair (pairs as) = as := by
    induction h with
    | nil | last => rfl
    | cons ht h ih => rw [pairs, unpair_cons, ih fun x hx => hnone x (by simp [pairs, hx])]
  rw [lifetimesFirst, List.filter_eq_nil_iff.mpr fun x hx => by simp [hnone x hx], List.nil_append,
    List.filter_eq_self.mpr fun x hx => by simp [hnone x hx], hpairs]

/-- Types in angle brackets behind a name. In a type, the two colons may be left out. -/
inductive Argued (inExpr : Bool) : Tree → Prop where
  | colons {as : List Tree} {q l g : Pos} (h : TypeArgs as) : Argued inExpr
      (.node .angleArgs [.leaf (.symbol "::" q), .leaf (.symbol "<" l), .list as, .leaf (.symbol ">" g)])
  | bare {as : List Tree} {l g : Pos} (hexpr : inExpr = false) (h : TypeArgs as) :
      Argued inExpr (.node .angleArgs [.absent, .leaf (.symbol "<" l), .list as, .leaf (.symbol ">" g)])

theorem angleArgs_after {lead : Tree} {as : List Tree} {l g : Pos} {us : List TokenTree} (h : TypeArgs as)
    (hlead : symbol? "::" us = .ok (lead, .punct '<' false l :: (as.flatMap Tree.toTokens ++ .punct '>' false g :: ts))) :
    angleArgs reach us = .ok (.node .angleArgs [lead, .leaf (.symbol "<" l), .list as, .leaf (.symbol ">" g)], ts) := by
  have hopen : symbol "<" (.punct '<' false l :: (as.flatMap Tree.toTokens ++ .punct '>' false g :: ts)) =
      .ok (.leaf (.symbol "<" l), as.flatMap Tree.toTokens ++ .punct '>' false g :: ts) := symbol_ok (by decide) l _
  have hclose : symbol ">" (.punct '>' false g :: ts) = .ok (.leaf (.symbol ">" g), ts) := symbol_ok (by decide) g ts
  have hargs : separated (Ahead.symbol ">") "," (genericArg reach) (as.flatMap Tree.toTokens ++ .punct '>' false g :: ts) =
      .ok (.list as, .punct '>' false g :: ts) := by
    rw [separated, bind_get, bind_of_ok (h.readsFuel g (h.length_le g))]
    rfl
  rw [angleArgs, bind_of_ok hlead, bind_of_ok hopen, bind_of_ok hargs, bind_of_ok hclose]
  change Except.ok (Tree.node .angleArgs [lead, _, .list (lifetimesFirst .lifetimeArg as), _], ts) = _
  rw [h.lifetimesFirst_eq]

theorem Argued.reads (h : Argued inExpr args) : angleArgs reach (args.toTokens ++ ts) = .ok (args, ts) := by
  cases h with
  | @colons as q l g h =>
    have htokens : (Tree.node .angleArgs [.leaf (.symbol "::" q), .leaf (.symbol "<" l), .list as, .leaf (.symbol ">" g)]).toTokens ++
        ts = (Tree.leaf (.symbol "::" q)).toTokens ++ .punct '<' false l :: (as.flatMap Tree.toTokens ++ .punct '>' false g :: ts) := by
      simp [toTokens_node, toTokens_symbol, operatorTokens, Tree.list]
    rw [htokens]
    exact angleArgs_after h (whenAhead_ok rfl (symbol_ok (by decide) q _))
  | @bare as l g hexpr h =>
    have htokens : (Tree.node .angleArgs [.absent, .leaf (.symbol "<" l), .list as, .leaf (.symbol ">" g)]).toTokens ++ ts =
        .punct '<' false l :: (as.flatMap Tree.toTokens ++ .punct '>' false g :: ts) := by
      simp [toTokens_node, toTokens_absent, toTokens_symbol, operatorTokens, Tree.list]
    rw [htokens]
    exact angleArgs_after h (whenAhead_not rfl)

theorem Argued.taken (h : Argued inExpr args) : args.toTokens ≠ [] := by
  cases h <;> simp [toTokens_node, toTokens_symbol, operatorTokens]

theorem TypeArgs.settled {as : List Tree} (h : TypeArgs as) : ∀ a ∈ as, Settled a := by
  have harg {t : Tree} (ht : ReadsType t) : Settled (.node .typeArg [t]) :=
    grouped_node (by simp [partCount?]) (List.forall_mem_singleton.mpr ht.settled) {}
  induction h with
  | nil => simp
  | last ht => simpa using harg ht
  | cons ht h ih => simpa [settled_leaf, harg ht] using ih

theorem Argued.settled (h : Argued inExpr args) : Settled args := by
  cases h with
  | colons h | bare _ h =>
    exact grouped_node (by simp [partCount?]) (by simp [settled_leaf, settled_absent, settled_list h.settled]) {}

/-! ### Segments -/

theorem toTokens_segmentOf (n : String) (p : Pos) : (segmentOf n p).toTokens = [.ident n p] := rfl

theorem toTokens_segment (n : String) (p : Pos) (args : Tree) :
    (Tree.node .segment [.leaf (.word n p), args]).toTokens = .ident n p :: args.toTokens := by
  simp [toTokens_node, toTokens_word]

/-- A name of a path, maybe with arguments. -/
inductive Segment (inExpr : Bool) : Tree → Prop where
  | plain {n : String} {p : Pos} (hn : IsName n) : Segment inExpr (segmentOf n p)
  | argued {n : String} {p : Pos} {args : Tree} (hn : IsName n) (h : Argued inExpr args) :
      Segment inExpr (.node .segment [.leaf (.word n p), args])

theorem segment_argued (hn : IsName n) (p : Pos) (h : Argued inExpr args) :
    segment reach inExpr (.ident n p :: (args.toTokens ++ ts)) = .ok (.node .segment [.leaf (.word n p), args], ts) := by
  have hspecial : Ahead.oneOf ["super", "self", "crate", "try"] (.ident n p :: (args.toTokens ++ ts)) = false :=
    hn.oneOf (by decide) p _
  have hargs : ((!inExpr && Ahead.symbol "<" (args.toTokens ++ ts) && !Ahead.symbol "<=" (args.toTokens ++ ts) &&
      !Ahead.symbol "<<=" (args.toTokens ++ ts)) ||
        (Ahead.symbol "::" (args.toTokens ++ ts) && Ahead.symbol "<" ((args.toTokens ++ ts).drop 2))) = true := by
    cases h with
    | colons => exact Bool.or_eq_true_iff.mpr (.inr rfl)
    | bare hexpr h =>
      subst hexpr
      exact Bool.or_eq_true_iff.mpr (.inl rfl)
  rw [segment, segmentWith, bind_get, if_neg (by simp [hspecial])]
  rw [if_neg (by simp [hn.word (w := "Self") (by decide)]), bind_of_ok (name_ok hn.keyword p _)]
  dsimp only
  rw [bind_get, if_pos hargs, bind_of_ok h.reads]
  rfl

theorem Segment.reads (h : Segment inExpr s) (hts : Unargued inExpr ts) :
    segment reach inExpr (s.toTokens ++ ts) = .ok (s, ts) := by
  cases h with
  | plain hn => exact segment_ok hn _ hts
  | @argued n p args hn h =>
    rw [toTokens_segment, List.cons_append]
    exact segment_argued hn p h

theorem settled_segment (n : String) (p : Pos) : Settled (segmentOf n p) :=
  grouped_node (by simp [partCount?]) (by simp [settled_leaf, settled_absent]) {}

theorem Segment.settled (h : Segment inExpr s) : Settled s := by
  cases h with
  | plain => exact settled_segment _ _
  | argued hn h => exact grouped_node (by simp [partCount?]) (by simp [settled_leaf, h.settled]) {}

/-- Further names of a path, maybe with arguments. -/
inductive Segmented (inExpr : Bool) : List Tree → Prop where
  | nil : Segmented inExpr []
  | cons {s : Tree} {q : Pos} {more : List Tree} (hs : Segment inExpr s) (h : Segmented inExpr more) :
      Segmented inExpr (.leaf (.symbol "::" q) :: s :: more)

theorem Segment.named (h : Segment inExpr s) : ∃ n p us, IsName n ∧ s.toTokens = .ident n p :: us := by
  cases h with
  | plain hn => exact ⟨_, _, _, hn, rfl⟩
  | argued hn h => exact ⟨_, _, _, hn, rfl⟩

section
variable (h : Segmented inExpr more)
include h

theorem Segmented.follows (hts : Ahead.symbol "::" ts = false) (hangle : inExpr = false → Ahead.symbol "<" ts = false) :
    Unargued inExpr (more.flatMap Tree.toTokens ++ ts) := by
  cases h with
  | nil => exact ⟨by simp [hts], by simpa using hangle⟩
  | cons hs h =>
    obtain ⟨n, p, us, -, hs⟩ := hs.named
    rw [List.flatMap_cons, List.flatMap_cons, hs]
    exact ⟨Bool.and_eq_false_iff.mpr (.inr rfl), fun _ => rfl⟩

theorem Segmented.length_le (ts : List TokenTree) : more.length ≤ (more.flatMap Tree.toTokens ++ ts).length := by
  induction h with
  | nil => exact Nat.zero_le _
  | @cons s q more hs h ih =>
    obtain ⟨n, p, us, -, hs⟩ := hs.named
    have hcolons : (Tree.leaf (.symbol "::" q)).toTokens.length = 2 := rfl
    simp only [List.flatMap_cons, List.length_append, List.length_cons, hs] at ih ⊢
    omega

theorem Segmented.repeats (hts : Ahead.symbol "::" ts = false) (hangle : inExpr = false → Ahead.symbol "<" ts = false) {k : Nat}
    (hk : more.length ≤ k) : ∃ turns, turns.flatten = more ∧
      repeatFuel (fun ts => Ahead.symbol "::" ts && !Ahead.group .paren (ts.drop 2))
        (do return [← symbol "::", ← segment reach inExpr]) k (more.flatMap Tree.toTokens ++ ts) = .ok (turns, ts) := by
  induction h generalizing k with
  | nil => exact ⟨[], rfl, repeatFuel_of_not (by simp [hts]) k⟩
  | @cons s q more hs h ih =>
    obtain ⟨k, rfl⟩ : ∃ m, k = m + 1 := ⟨k - 1, by simp at hk; omega⟩
    obtain ⟨turns, hturns, hrepeat⟩ := ih (k := k) (by simp at hk; omega)
    have htokens : (Tree.leaf (.symbol "::" q) :: s :: more).flatMap Tree.toTokens ++ ts =
        (Tree.leaf (.symbol "::" q)).toTokens ++ (s.toTokens ++ (more.flatMap Tree.toTokens ++ ts)) := by simp
    rw [htokens]
    refine ⟨[.leaf (.symbol "::" q), s] :: turns, by simp [hturns], repeatFuel_cons ?_ ?_ hrepeat⟩
    · obtain ⟨n, p, us, -, hs⟩ := hs.named
      rw [hs]
      rfl
    · rw [bind_of_ok (symbol_ok (by decide) q _), bind_of_ok (hs.reads (h.follows hts hangle))]
      rfl

theorem Segmented.reads (hts : Ahead.symbol "::" ts = false) (hangle : inExpr = false → Ahead.symbol "<" ts = false) :
    moreSegments (segment reach inExpr) (more.flatMap Tree.toTokens ++ ts) = .ok (more, ts) := by
  obtain ⟨turns, rfl, hturns⟩ := h.repeats hts hangle (h.length_le ts)
  rw [moreSegments, bind_of_ok (show repeatWhile _ _ _ = _ from hturns)]
  rfl

theorem Segmented.settled : ∀ t ∈ more, Settled t := by
  induction h with
  | nil => simp
  | cons hs h ih => simpa [settled_leaf, hs.settled] using ih

end

/-! ### Paths -/

/-- A path whose names may have types for arguments. -/
inductive Generic (inExpr : Bool) : Tree → Prop where
  | start {n : String} {p : Pos} {more : List Tree} (hn : Starts n) (hcrate : n = "crate" → more ≠ []) (h : Segmented inExpr more) :
      Generic inExpr (.node .path [.absent, .list (segmentOf n p :: more)])
  | argued {n : String} {p : Pos} {args : Tree} {more : List Tree} (hn : IsName n) (hargs : Argued inExpr args)
      (h : Segmented inExpr more) :
      Generic inExpr (.node .path [.absent, .list (.node .segment [.leaf (.word n p), args] :: more)])
  | root {s : Tree} {q : Pos} {more : List Tree} (hs : Segment inExpr s) (h : Segmented inExpr more) :
      Generic inExpr (.node .path [.leaf (.symbol "::" q), .list (s :: more)])

theorem path_after {lead : Tree} {us : List TokenTree} (hangle : Ahead.symbol "<" us = false)
    (hlead : symbol? "::" us = .ok (lead, s.toTokens ++ (more.flatMap Tree.toTokens ++ ts)))
    (hs : segment reach inExpr (s.toTokens ++ (more.flatMap Tree.toTokens ++ ts)) = .ok (s, more.flatMap Tree.toTokens ++ ts))
    (hmore : moreSegments (segment reach inExpr) (more.flatMap Tree.toTokens ++ ts) = .ok (more, ts)) :
    anyPath reach inExpr us = .ok (.node .path [lead, .list (s :: more)], ts) := by
  rw [anyPath, bind_get, if_neg (by simp [hangle]), Parse.path, pathWith, bind_of_ok hlead, bind_of_ok hs, bind_of_ok hmore]
  rfl

theorem toTokens_path (lead s : Tree) (more : List Tree) (ts : List TokenTree) :
    (Tree.node .path [lead, .list (s :: more)]).toTokens ++ ts =
      lead.toTokens ++ (s.toTokens ++ (more.flatMap Tree.toTokens ++ ts)) := by
  simp [toTokens_node, Tree.list]

theorem Generic.reads (h : Generic inExpr path) (hts : Ahead.symbol "::" ts = false)
    (hangle : inExpr = false → Ahead.symbol "<" ts = false) : anyPath reach inExpr (path.toTokens ++ ts) = .ok (path, ts) := by
  cases h with
  | start hn hcrate h =>
    rw [toTokens_path]
    exact path_after rfl rfl (segment_start hn _ (h.follows hts hangle)) (h.reads hts hangle)
  | @argued n p args more hn hargs h =>
    rw [toTokens_path]
    exact path_after rfl rfl ((Segment.argued hn hargs).reads (h.follows hts hangle)) (h.reads hts hangle)
  | root hs h =>
    rw [toTokens_path]
    exact path_after rfl (whenAhead_ok rfl (symbol_ok (by decide) _ _)) (hs.reads (h.follows hts hangle)) (h.reads hts hangle)

theorem Generic.kind (h : Generic inExpr path) : path.kind? = some .path := by
  cases h <;> rfl

theorem Generic.settled (h : Generic inExpr path) : Settled path := by
  have hlist {s : Tree} {more : List Tree} (hs : Settled s) (h : Segmented inExpr more) : Settled (.list (s :: more)) :=
    settled_list (List.forall_mem_cons.mpr ⟨hs, h.settled⟩)
  cases h with
  | start hn hcrate h =>
    exact grouped_node (by simp [partCount?]) (by simp [hlist (settled_segment _ _) h, settled_absent]) {}
  | argued hn hargs h =>
    exact grouped_node (by simp [partCount?]) (by simp [hlist (Segment.argued hn hargs).settled h, settled_absent]) {}
  | root hs h => exact grouped_node (by simp [partCount?]) (by simp [hlist hs.settled h, settled_leaf]) {}

theorem Generic.bare (h : Generic inExpr path) (ts : List TokenTree) : Bare (path.toTokens ++ ts) := by
  cases h <;> exact ⟨rfl, rfl, rfl, rfl, rfl⟩

theorem Generic.atom_eq (h : Generic inExpr path) (ts : List TokenTree) :
    atom reach structs (path.toTokens ++ ts) = pathExpr reach structs (path.toTokens ++ ts) := by
  cases h with
  | start hn hcrate h => exact hn.atom_eq _ _
  | argued hn hargs h => exact (show Starts _ from .inl hn).atom_eq _ _
  | root hs h => rfl

theorem Generic.front (h : Generic inExpr path) (rest : List TokenTree) : Fronts (path.toTokens ++ rest) := by
  cases h with
  | start hn hcrate h => exact hn.front _ _
  | argued hn hargs h => exact (show Starts _ from .inl hn).front _ _
  | root hs h => exact ⟨⟨rfl, rfl, rfl, rfl, rfl⟩, rfl, rfl, rfl⟩

/-- A path is a type. -/
theorem Generic.type (h : Generic false path) : ReadsType (.node .pathType [path]) where
  settled := grouped_node (by simp [partCount?]) (by simp [h.settled]) {}
  reads plus rest hrest := by
    have htokens : (Tree.node .pathType [path]).toTokens ++ rest = path.toTokens ++ rest := by simp [toTokens_node]
    have hpath : pathType reach plus .absent (path.toTokens ++ rest) = .ok (.node .pathType [path], rest) := by
      rw [pathType, bind_of_ok (h.reads hrest.colons fun _ => hrest.angle), if_neg (by simp [h.kind]), bind_get,
        if_neg (by simp [hrest.bang]), if_neg (by simp [hrest.plus, Tree.isPresent, Tree.absent])]
      rfl
    rw [htokens, reach_eq]
    change Parse.type reach plus _ = _
    cases h with
    | start hn hcrate h => exact (hn.type_eq _ plus _).trans hpath
    | argued hn hargs h => exact ((show Starts _ from .inl hn).type_eq _ plus _).trans hpath
    | root hs h => exact hpath
  front rest := by
    have hstart {n : String} {p : Pos} {us : List TokenTree} (hn : Starts n) : BeginsArg (.ident n p :: us) :=
      ⟨rfl, by simp [Ahead.literal, hn.ne (w := "true") (by decide), hn.ne (w := "false") (by decide)], rfl, rfl⟩
    cases h with
    | start hn hcrate h => exact hstart hn
    | argued hn hargs h => exact hstart (.inl hn)
    | root hs h => exact ⟨rfl, rfl, rfl, rfl⟩

end CallProbe.Source.Parse
