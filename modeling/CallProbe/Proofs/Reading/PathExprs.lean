import CallProbe.Proofs.Reading.Paths

/-! # Paths as expressions

A statement that starts with a path may be an item or the call of a macro. The reader looks for a path without arguments and
a bang behind it, and finds neither in front of an expression (`Generic.opens`). -/

namespace CallProbe.Source.Parse

open Grammar Grouping

variable {structs inExpr : Bool} {path t s args : Tree} {ts rest : List TokenTree} {more : List Tree} {n : String} {p q : Pos}

/-! ### Paths of names -/

/-- Further segments of a path of names. -/
inductive Segments : List Tree → Prop where
  | nil : Segments []
  | cons {n : String} {p q : Pos} {more : List Tree} (hn : IsName n) (h : Segments more) :
      Segments (.leaf (.symbol "::" q) :: segmentOf n p :: more)

/-- A path of names. A statement that starts with `crate` alone would be an item. -/
inductive Names : Tree → Prop where
  | path {n : String} {p : Pos} {more : List Tree} (hn : Starts n) (hcrate : n = "crate" → more ≠ []) (h : Segments more) :
      Names (.node .path [.absent, .list (segmentOf n p :: more)])
  | root {n : String} {p q : Pos} {more : List Tree} (hn : IsName n) (h : Segments more) :
      Names (.node .path [.leaf (.symbol "::" q), .list (segmentOf n p :: more)])

theorem Segments.segmented (h : Segments more) : Segmented inExpr more := by
  induction h with
  | nil => exact .nil
  | cons hn h ih => exact .cons (.plain hn) ih

theorem Names.generic (h : Names path) (inExpr : Bool) : Generic inExpr path := by
  cases h with
  | path hn hcrate h => exact .start hn hcrate h.segmented
  | root hn h => exact .root (.plain hn) h.segmented

/-! ### Where only names are read -/

/-- One name where only names are read. -/
def plainSegment : Parser Tree := do
  let ts ← get
  if Ahead.name ts || Ahead.oneOf pathWords ts then return .node .segment [← anyWord, .absent] else refuse

/-- A further name where only names are read. -/
def plainTurn : Parser (List Tree) := do return [← symbol "::", ← plainSegment]

theorem plainPath_eq : plainPath = do
    let lead ← symbol? "::"
    let first ← plainSegment
    let rest ← repeatWhile (Ahead.symbol "::") plainTurn
    return .node .path [lead, .list (first :: rest.flatten)] := rfl

theorem plainSegment_ok (hn : Starts n) (p : Pos) (ts : List TokenTree) :
    plainSegment (.ident n p :: ts) = .ok (segmentOf n p, ts) := by
  rw [plainSegment, bind_get, if_pos (hn.ahead p ts)]
  rfl

theorem plainTurn_ok (hn : IsName n) (p q : Pos) (ts : List TokenTree) :
    plainTurn ((Tree.leaf (.symbol "::" q)).toTokens ++ .ident n p :: ts) = .ok ([.leaf (.symbol "::" q), segmentOf n p], ts) := by
  rw [plainTurn, bind_of_ok (symbol_ok (by decide) q _), bind_of_ok (plainSegment_ok (.inl hn) p _)]
  rfl

theorem plainTurn_refuses (q l : Pos) (ts : List TokenTree) :
    plainTurn ((Tree.leaf (.symbol "::" q)).toTokens ++ .punct '<' false l :: ts) = .error .unexpected := by
  rw [plainTurn, bind_of_ok (symbol_ok (by decide) q _)]
  rfl

theorem Segments.turns (h : Segments more) (hts : Ahead.symbol "::" ts = false) {k : Nat} (hk : more.length ≤ k) :
    ∃ turns, turns.flatten = more ∧
      repeatFuel (Ahead.symbol "::") plainTurn k (more.flatMap Tree.toTokens ++ ts) = .ok (turns, ts) := by
  induction h generalizing k with
  | nil => exact ⟨[], rfl, repeatFuel_of_not hts k⟩
  | @cons m p q more hm h ih =>
    obtain ⟨k, rfl⟩ : ∃ m, k = m + 1 := ⟨k - 1, by simp at hk; omega⟩
    obtain ⟨turns, hturns, hrepeat⟩ := ih (k := k) (by simp at hk; omega)
    have htokens : (Tree.leaf (.symbol "::" q) :: segmentOf m p :: more).flatMap Tree.toTokens ++ ts =
        (Tree.leaf (.symbol "::" q)).toTokens ++ .ident m p :: (more.flatMap Tree.toTokens ++ ts) := by
      simp [toTokens_segmentOf]
    rw [htokens]
    exact ⟨[.leaf (.symbol "::" q), segmentOf m p] :: turns, by simp [hturns], repeatFuel_cons rfl (plainTurn_ok hm p q _) hrepeat⟩

/-- A path of names is read where only such a path is. -/
theorem Names.plainly (h : Names path) (hts : Ahead.symbol "::" ts = false) : plainPath (path.toTokens ++ ts) = .ok (path, ts) := by
  have hread {lead : Tree} {n : String} {p : Pos} {more : List Tree} {us : List TokenTree} (hn : Starts n) (h : Segments more)
      (hlead : symbol? "::" us = .ok (lead, .ident n p :: (more.flatMap Tree.toTokens ++ ts))) :
      plainPath us = .ok (.node .path [lead, .list (segmentOf n p :: more)], ts) := by
    have hlength : more.length ≤ (more.flatMap Tree.toTokens ++ ts).length := Segmented.length_le (show Segmented true more from h.segmented) ts
    obtain ⟨turns, rfl, hturns⟩ := h.turns hts hlength
    rw [plainPath_eq, bind_of_ok hlead, bind_of_ok (plainSegment_ok hn p _), bind_of_ok (show repeatWhile _ _ _ = _ from hturns)]
    rfl
  cases h with
  | path hn hcrate h =>
    rw [toTokens_path]
    exact hread hn h rfl
  | root hn h =>
    rw [toTokens_path]
    exact hread (.inl hn) h (whenAhead_ok rfl (symbol_ok (by decide) _ _))

/-- Behind a path, a bang that is part of an operator opens nothing. -/
theorem pathStart_of_plainPath {ts rest : List TokenTree} {path : Tree} (hplain : plainPath ts = .ok (path, rest))
    (hbang : bangAhead rest = false) : pathStart ts = .other := by
  unfold pathStart
  rw [hplain]
  dsimp only
  split
  · rename_i hmark
    -- The bang starts `!=`.
    have hne : Ahead.symbol "!=" rest = true := by
      rw [bangAhead, hmark] at hbang
      simpa using hbang
    obtain ⟨p, j, q, us, rfl⟩ : ∃ p j q us, rest = .punct '!' true p :: .punct '=' j q :: us := by
      match rest with
      | .punct c k p :: .punct d j q :: us =>
        have hchars : (('!' == c) && k && ('=' == d)) = true := hne
        simp only [Bool.and_eq_true, beq_iff_eq] at hchars
        obtain ⟨⟨rfl, rfl⟩, rfl⟩ := hchars
        exact ⟨p, j, q, us, rfl⟩
      | [] | .ident _ _ :: _ | .literal _ _ :: _ | .lifetime _ _ :: _ | .group _ _ _ _ :: _ => cases hne
      | [.punct _ k _] | .punct _ k _ :: .ident _ _ :: _ | .punct _ k _ :: .literal _ _ :: _ | .punct _ k _ :: .lifetime _ _ :: _
        | .punct _ k _ :: .group _ _ _ _ :: _ =>
        have hchars : (_ && k && false) = true := hne
        simp at hchars
    rfl
  · rfl

/-- A statement may start with a name, unless what is behind it makes that an item. -/
theorem Starts.opens {n : String} (hn : Starts n) {p : Pos} {ts : List TokenTree} (hcrate : n = "crate" → Ahead.symbol "::" ts = true)
    (hts : pathStart (.ident n p :: ts) = .other) : Opens (.ident n p :: ts) := by
  have hword {w : String} (hw : (reserved.contains w && !pathWords.contains w) = true) :
      Ahead.word w (.ident n p :: ts) = false := hn.word hw p _
  have hitem : Ahead.oneOf ["fn", "mod", "type", "struct", "enum", "trait", "impl", "macro"] (.ident n p :: ts) = false :=
    hn.oneOf (by decide) p _
  have hlifetimes : closureLifetimesAhead (.ident n p :: ts) = false := by
    simp [closureLifetimesAhead, hword (w := "for") (by decide)]
  refine ⟨rfl, hts, hword (by decide), ?_, rfl, ?_⟩
  · have hcrate : (Ahead.word "crate" (.ident n p :: ts) && !Ahead.symbol "::" ts) = false := by
      simpa [Ahead.word] using hcrate
    simp [itemAhead, hitem, hcrate, hword (w := "pub") (by decide), hword (w := "extern") (by decide),
      hword (w := "use") (by decide), hword (w := "static") (by decide), hword (w := "const") (by decide),
      hword (w := "unsafe") (by decide), hword (w := "async") (by decide), hword (w := "union") (by decide),
      hword (w := "auto") (by decide), hword (w := "default") (by decide)]
  · have hlife : Ahead.lifetime (.ident n p :: ts) = false := rfl
    rw [blockLike?, bind_get]
    simp only [hword (w := "if") (by decide), hword (w := "while") (by decide), hword (w := "for") (by decide),
      hword (w := "loop") (by decide), hword (w := "match") (by decide), hword (w := "try") (by decide),
      hword (w := "unsafe") (by decide), hword (w := "const") (by decide), Bool.false_and, Bool.false_eq_true, if_false]
    rfl

theorem repeatFuel_fails {a : List TokenTree → Bool} {turn : Parser (List Tree)} {us : List TokenTree} {e : Fault} {k : Nat}
    (hk : 0 < k) (ha : a us = true) (hturn : turn us = .error e) : repeatFuel a turn k us = .error e := by
  obtain ⟨k, rfl⟩ := Nat.exists_eq_succ_of_ne_zero (Nat.ne_of_gt hk)
  rw [repeatFuel_succ, if_pos ha, hturn]
  rfl

theorem repeatFuel_fails_later {a : List TokenTree → Bool} {turn : Parser (List Tree)} {us mid : List TokenTree} {x : List Tree}
    {e : Fault} {k : Nat} (ha : a us = true) (hturn : turn us = .ok (x, mid)) (h : repeatFuel a turn k mid = .error e) :
    repeatFuel a turn (k + 1) us = .error e := by
  rw [repeatFuel_succ, if_pos ha, hturn]
  simp only [Except.bind, h]

/-- Where only names are read, arguments are refused. -/
theorem Argued.fails (h : Argued true args) (ts : List TokenTree) {k : Nat} (hk : 0 < k) :
    repeatFuel (Ahead.symbol "::") plainTurn k (args.toTokens ++ ts) = .error .unexpected := by
  cases h with
  | bare hexpr => cases hexpr
  | @colons as r l g hargs =>
    have htokens : (Tree.node .angleArgs [.leaf (.symbol "::" r), .leaf (.symbol "<" l), .list as, .leaf (.symbol ">" g)]).toTokens ++
        ts = (Tree.leaf (.symbol "::" r)).toTokens ++ .punct '<' false l :: (as.flatMap Tree.toTokens ++ .punct '>' false g :: ts) := by
      simp [toTokens_node, toTokens_symbol, operatorTokens, Tree.list]
    rw [htokens]
    exact repeatFuel_fails hk rfl (plainTurn_refuses r l _)

/-- Where only names are read, arguments are not: there are none or they are refused. -/
theorem Segmented.plain_or_fails (h : Segmented true more) (ts : List TokenTree) :
    Segments more ∨ ∀ k ≥ (more.flatMap Tree.toTokens ++ ts).length, ∃ e,
      repeatFuel (Ahead.symbol "::") plainTurn k (more.flatMap Tree.toTokens ++ ts) = .error e := by
  induction h with
  | nil => exact .inl .nil
  | @cons s q more hs h ih =>
    have hcolons : (Tree.leaf (.symbol "::" q)).toTokens.length = 2 := rfl
    cases hs with
    | @plain n p hn =>
      refine ih.imp (.cons hn) fun hfails k hk => ?_
      have htokens : (Tree.leaf (.symbol "::" q) :: segmentOf n p :: more).flatMap Tree.toTokens ++ ts =
          (Tree.leaf (.symbol "::" q)).toTokens ++ .ident n p :: (more.flatMap Tree.toTokens ++ ts) := by
        simp [toTokens_segmentOf]
      rw [htokens] at hk ⊢
      simp only [List.length_append, List.length_cons, hcolons] at hk
      obtain ⟨k, rfl⟩ : ∃ m, k = m + 1 := ⟨k - 1, by omega⟩
      obtain ⟨e, he⟩ := hfails k (by simp only [List.length_append]; omega)
      exact ⟨e, repeatFuel_fails_later rfl (plainTurn_ok hn p q _) he⟩
    | @argued n p args hn hargs =>
      -- The name is read alone, and then the arguments cannot be.
      refine .inr fun k hk => ?_
      have htokens : (Tree.leaf (.symbol "::" q) :: .node .segment [.leaf (.word n p), args] :: more).flatMap Tree.toTokens ++ ts =
          (Tree.leaf (.symbol "::" q)).toTokens ++ .ident n p :: (args.toTokens ++ (more.flatMap Tree.toTokens ++ ts)) := by
        simp [toTokens_segment]
      rw [htokens] at hk ⊢
      simp only [List.length_append, List.length_cons, hcolons] at hk
      obtain ⟨k, rfl⟩ : ∃ m, k = m + 1 := ⟨k - 1, by omega⟩
      exact ⟨_, repeatFuel_fails_later rfl (plainTurn_ok hn p q _) (hargs.fails _ (show 0 < k by omega))⟩

theorem bind_fails {α β : Type} {p : Parser α} {f : α → Parser β} {us : List TokenTree} {e : Fault} (h : p us = .error e) :
    (p >>= f) us = .error e := by
  change (p us).bind (fun r => f r.1 r.2) = .error e
  rw [h]
  rfl

theorem pathStart_of_error {us : List TokenTree} (h : ∃ e, plainPath us = .error e) : pathStart us = .other := by
  obtain ⟨e, h⟩ := h
  rw [pathStart, h]

/-- A path with arguments is not read where only a path of names is. -/
theorem Generic.plain_or_fails (h : Generic true path) (ts : List TokenTree) :
    Names path ∨ ∃ e, plainPath (path.toTokens ++ ts) = .error e := by
  have hpath {lead : Tree} {m : String} {q : Pos} {us vs : List TokenTree} (hm : Starts m)
      (hlead : symbol? "::" us = .ok (lead, .ident m q :: vs))
      (hfails : ∃ e, repeatFuel (Ahead.symbol "::") plainTurn vs.length vs = .error e) : ∃ e, plainPath us = .error e := by
    obtain ⟨e, hfails⟩ := hfails
    refine ⟨e, ?_⟩
    rw [plainPath_eq, bind_of_ok hlead, bind_of_ok (plainSegment_ok hm q vs)]
    exact bind_fails hfails
  have hargued {args : Tree} (hargs : Argued true args) (us : List TokenTree) :
      ∃ e, repeatFuel (Ahead.symbol "::") plainTurn (args.toTokens ++ us).length (args.toTokens ++ us) = .error e :=
    ⟨_, hargs.fails us (by have := List.length_pos_iff.mpr hargs.taken; simp only [List.length_append]; omega)⟩
  cases h with
  | @start n p more hn hcrate h =>
    rw [toTokens_path, toTokens_segmentOf, toTokens_absent, List.nil_append, List.singleton_append]
    rcases h.plain_or_fails ts with hplain | hfails
    · exact .inl (.path hn hcrate hplain)
    · exact .inr (hpath hn rfl (hfails _ (Nat.le_refl _)))
  | @argued n p args more hn hargs h =>
    rw [toTokens_path, toTokens_segment, toTokens_absent, List.nil_append, List.cons_append]
    exact .inr (hpath (.inl hn) rfl (hargued hargs _))
  | @root s q more hs h =>
    have hlead (us : List TokenTree) : symbol? "::" ((Tree.leaf (.symbol "::" q)).toTokens ++ us) = .ok (.leaf (.symbol "::" q), us) :=
      whenAhead_ok rfl (symbol_ok (by decide) q us)
    rw [toTokens_path]
    cases hs with
    | @plain n p hn =>
      rcases h.plain_or_fails ts with hplain | hfails
      · exact .inl (.root hn hplain)
      · exact .inr (hpath (.inl hn) (hlead _) (hfails _ (Nat.le_refl _)))
    | argued hn hargs =>
      rw [toTokens_segment, List.cons_append]
      exact .inr (hpath (.inl hn) (hlead _) (hargued hargs _))

/-! ### Statements and operands -/

/-- A statement may start with a path, unless a bang behind it makes that an item. -/
theorem Generic.opens_of (h : Generic inExpr path) (hrest : pathStart (path.toTokens ++ rest) = .other) :
    Opens (path.toTokens ++ rest) := by
  cases h with
  | @start n p more hn hcrate h =>
    refine hn.opens (fun hn => ?_) hrest
    cases h with
    | nil => exact absurd rfl (hcrate hn)
    | cons => rfl
  | @argued n p args more hn hargs h =>
    exact (show Starts n from .inl hn).opens (fun h => absurd h (hn.ne (by decide))) hrest
  | root hs h => exact ⟨rfl, hrest, rfl, rfl, rfl, rfl⟩

theorem Generic.opens (h : Generic true path) (hrest : After true rest) : Opens (path.toTokens ++ rest) := by
  refine h.opens_of ?_
  rcases h.plain_or_fails rest with hnames | hfails
  · exact pathStart_of_plainPath (hnames.plainly hrest.colons) hrest.bang
  · exact pathStart_of_error hfails

/-- A path, behind which nothing stands that belongs to it, is an operand. -/
theorem operand_path (h : Generic true path) : Operand true false (.node .pathExpr [.noAttrs, path]) where
  base structs rest e rest' hrest _ htrailers hform := by
    have htokens : (Tree.node .pathExpr [.noAttrs, path]).toTokens ++ rest = path.toTokens ++ rest := by
      simp [toTokens_node, toTokens_noAttrs]
    have hatom : atom reach structs (path.toTokens ++ rest) = .ok (.node .pathExpr [.noAttrs, path], rest) := by
      rw [h.atom_eq, pathExpr, bind_of_ok (h.reads hrest.colons (by simp)), bind_get, if_neg (by simp [hrest.bang]), if_neg]
      · rfl
      · simpa using hrest.brace
    rw [htokens]
    exact unary_atom (h.bare rest) hatom htrailers hform
  shape := ⟨isForm_node (by decide), rfl, rfl, rfl, by simp [Tree.kind?], fun s _ =>
      grouped_node (by simp [partCount?]) (by simp [h.settled, settled_noAttrs]) s, rfl, fun rest => by
    simpa [toTokens_node, toTokens_noAttrs] using h.front rest⟩
  named _ := rfl
  early _ := ⟨fun rest hrest => by simpa [toTokens_node, toTokens_noAttrs] using h.opens hrest, by simp [Tree.kind?]⟩

/-! ### Methods -/

/-- Generic arguments in an expression are two colons and what is read behind them. -/
theorem Argued.afterColons (h : Argued true args) (ts : List TokenTree) : ∃ q more us, args = .node .angleArgs (.leaf (.symbol "::" q) :: more) ∧
    args.toTokens ++ ts = (Tree.leaf (.symbol "::" q)).toTokens ++ us ∧ Ahead.symbol "<" us = true ∧
    angleArgs reach us = .ok (.node .angleArgs (.absent :: more), ts) := by
  cases h with
  | bare hexpr => cases hexpr
  | @colons as q l g hargs =>
    refine ⟨q, _, .punct '<' false l :: (as.flatMap Tree.toTokens ++ .punct '>' false g :: ts), rfl, ?_, rfl, ?_⟩
    · simp [toTokens_node, toTokens_symbol, operatorTokens, Tree.list]
    · exact angleArgs_after hargs (whenAhead_not rfl)

theorem afterDot_argued {base dot : Tree} {as : List Tree} {o c : Pos} (hn : Ahead.keywords.contains n = false) (h : Argued true args)
    (hargs : ReadsAll as) :
    afterDot reach base dot (.ident n p :: (args.toTokens ++ .group .paren o (as.flatMap Tree.toTokens) c :: ts)) =
      .ok (.node .methodCallExpr [.noAttrs, base, dot, .leaf (.word n p), args, .group .paren o [.list as] c], ts) := by
  obtain ⟨q, more, us, rfl, htokens, hangle, hread⟩ := h.afterColons (.group .paren o (as.flatMap Tree.toTokens) c :: ts)
  rw [htokens]
  have hawait : Ahead.word "await" (.ident n p :: ((Tree.leaf (.symbol "::" q)).toTokens ++ us)) = false := by
    simpa [Ahead.word] using ne_await hn
  have hcolons : Ahead.symbol "::" ((Tree.leaf (.symbol "::" q)).toTokens ++ us) = true := rfl
  rw [afterDot, bind_get, if_neg (by simp [hawait]), bind_of_ok (member_name hn p _), bind_get, if_pos (by simp [hcolons, isNamed]),
    bind_of_ok (symbol_ok (by decide) q us), bind_get, if_neg (by simp [hangle])]
  dsimp only
  rw [bind_of_ok hread]
  dsimp only
  rw [bind_of_ok (group_single hargs)]
  rfl

/-- The call of a method, maybe with generic arguments. -/
theorem Operand.methodOf {e m : Bool} {base : Tree} {as : List Tree} {o c dot : Pos} (h : Operand e m base)
    (hn : Ahead.keywords.contains n = false) (hargs : args = .absent ∨ Argued true args) (has : Separated as)
    (hsettled : ∀ a ∈ as, Settled a) :
    Operand e false (.node .methodCallExpr [.noAttrs, base, .leaf (.symbol "." dot), .leaf (.word n p), args,
      .group .paren o [.list as] c]) := by
  rcases hargs with rfl | hargs
  · exact h.method hn has hsettled
  have hcall {ts : List TokenTree} : reach (.trailers base) ((Tree.leaf (.symbol "." dot)).toTokens ++ .ident n p :: (args.toTokens ++
      .group .paren o (as.flatMap Tree.toTokens) c :: ts)) = reach (.trailers (.node .methodCallExpr [.noAttrs, base,
        .leaf (.symbol "." dot), .leaf (.word n p), args, .group .paren o [.list as] c])) ts :=
    trailers_dot h.shape.range (afterDot_argued hn hargs has.readsAll)
  have htokens : (Tree.node .methodCallExpr [.noAttrs, base, .leaf (.symbol "." dot), .leaf (.word n p), args,
      .group .paren o [.list as] c]).toTokens = base.toTokens ++ ((Tree.leaf (.symbol "." dot)).toTokens ++ .ident n p :: (args.toTokens ++
        [.group .paren o (as.flatMap Tree.toTokens) c])) := by
    simp [toTokens_node, toTokens_group, toTokens_noAttrs, toTokens_word, Tree.list]
  refine h.extend _ htokens (fun _ _ => ⟨rfl, rfl, rfl, fun _ => rfl⟩) ?_ (isForm_node (by decide)) rfl rfl rfl (by simp [Tree.kind?]) rfl
    (fun s hs => ?_) (fun _ => rfl) (by simp [Tree.kind?])
  · exact h.base.extend _ htokens (fun _ _ => ⟨rfl, rfl, rfl, fun _ => rfl⟩) (fun _ _ => rfl) fun _ rest _ _ => by
      rw [← hcall]
      simp
  · have hgroup : Settled (.group .paren o [.list as] c) := settled_group (by simpa using settled_list hsettled)
    rw [tree_methodCall]
    dsimp only
    rw [h.leftGrouped hs _ _ rfl, hgroup, settled_noAttrs, hargs.settled]

end CallProbe.Source.Parse
