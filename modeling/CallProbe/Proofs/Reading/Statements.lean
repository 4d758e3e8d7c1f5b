import CallProbe.Proofs.Reading.Operators

/-! # Blocks and statements

A statement starts like an item, a `let` or an expression, and the reader looks at its first tokens to tell them apart.
`Opens` and `Blocky` are what it must see, `Stmt` and `Stmts` what it reads then. -/

namespace CallProbe.Source.Parse

open Grammar

variable {structs : Bool} {ts rest mid : List TokenTree} {t e cond body : Tree} {p q : Pos}

/-! ### Statements -/

/-- Tokens with which a statement starts that is neither an item nor a `let`, nor like a block. -/
structure Opens (ts : List TokenTree) : Prop where
  pound : Ahead.symbol "#" ts = false
  path : pathStart ts = .other
  binding : Ahead.word "let" ts = false
  item : itemAhead ts = false
  lifetime : Ahead.lifetime ts = false
  blockLike : blockLike? reach ts = .ok (none, ts)

theorem stmt_eq (ts : List TokenTree) : reach .stmt ts = stmt reach ts := by
  rw [reach_eq]
  rfl

theorem stmt_letStmt (hpound : Ahead.symbol "#" ts = false) (hpath : pathStart ts = .other) (hlet : Ahead.word "let" ts = true) :
    reach .stmt ts = letStmt reach .noAttrs ts := by
  rw [stmt_eq, stmt, bind_get, bind_of_ok (outerAttrs_none hpound), bind_get, hpath]
  dsimp only
  rw [if_pos hlet]

theorem stmt_exprStmt (hpound : Ahead.symbol "#" ts = false) (hpath : pathStart ts = .other) (hlet : Ahead.word "let" ts = false)
    (hitem : itemAhead ts = false) : reach .stmt ts = exprStmt reach .noAttrs ts := by
  rw [stmt_eq, stmt, bind_get, bind_of_ok (outerAttrs_none hpound), bind_get, hpath]
  dsimp only
  rw [if_neg (by simp [hlet]), if_neg (by simp [hitem])]

theorem earlyExpr_value (h : Value true t) (hclose : closeRange t = t) (hrest : Ends true rest)
    (hopens : Opens (t.toTokens ++ rest)) : reach .earlyExpr (t.toTokens ++ rest) = .ok (t, rest) := by
  obtain ⟨first, mid, hfirst, hform, hclimb⟩ := h rest hrest
  rw [reach_eq]
  change earlyExpr reach _ = _
  rw [earlyExpr, bind_of_ok (outerAttrs_none hopens.pound), bind_of_ok hopens.blockLike]
  dsimp only
  rw [bind_of_ok hfirst, hform.1, bind_of_ok hclimb, hclose]
  rfl

/-- A statement that is an expression. -/
theorem stmt_value (h : Value true t) (hclose : closeRange t = t) (hattrs : attrsToFirst .noAttrs t = t)
    (hnotCall : t.kind? ≠ some .macroExpr) (hrest : Ends true rest) (hopens : Opens (t.toTokens ++ rest)) :
    reach .stmt (t.toTokens ++ rest) = (do return .node .exprStmt [t, ← symbol? ";"] : Parser Tree) rest := by
  rw [stmt_exprStmt hopens.pound hopens.path hopens.binding hopens.item, exprStmt,
    bind_of_ok (earlyExpr_value h hclose hrest hopens), hattrs, hclose]
  split
  · exact absurd rfl hnotCall
  · rfl

/-- An expression that is like a block, and how it is recognised. -/
structure Blocky (t : Tree) : Prop where
  like : ∀ rest, Ahead.word "else" rest = false → blockLike? reach (t.toTokens ++ rest) = .ok (some t, rest)
  atom : ∀ structs rest, Ahead.word "else" rest = false → atom reach structs (t.toTokens ++ rest) = .ok (t, rest)
  bare : ∀ rest, Bare (t.toTokens ++ rest)
  path : ∀ rest, pathStart (t.toTokens ++ rest) = .other
  binding : ∀ rest, Ahead.word "let" (t.toTokens ++ rest) = false
  item : ∀ rest, itemAhead (t.toTokens ++ rest) = false

theorem stmt_blocky (h : Blocky t) (hform : IsForm t) (hclose : closeRange t = t) (hattrs : attrsToFirst .noAttrs t = t)
    (hnotCall : t.kind? ≠ some .macroExpr)
    (hother : Ahead.word "else" rest = false) (hdot : dotAhead rest = false) (hquestion : Ahead.symbol "?" rest = false) :
    reach .stmt (t.toTokens ++ rest) = (do return .node .exprStmt [t, ← symbol? ";"] : Parser Tree) rest := by
  have hearly : reach .earlyExpr (t.toTokens ++ rest) = .ok (t, rest) := by
    rw [reach_eq]
    change earlyExpr reach _ = _
    rw [earlyExpr, bind_of_ok (outerAttrs_none (h.bare rest).pound), bind_of_ok (h.like rest hother)]
    dsimp only
    rw [bind_get, if_neg (by simp [hdot, hquestion]), hform.1]
    rfl
  rw [stmt_exprStmt (h.bare rest).pound (h.path rest) (h.binding rest) (h.item rest), exprStmt, bind_of_ok hearly, hattrs, hclose]
  split
  · exact absurd rfl hnotCall
  · rfl

/-- Tokens behind which no statement goes on, and with which no inner attribute starts. -/
structure Fresh (ts : List TokenTree) : Prop where
  other : Ahead.word "else" ts = false
  dot : dotAhead ts = false
  question : Ahead.symbol "?" ts = false
  semi : Ahead.symbol ";" ts = false
  inner : (Ahead.symbol "#" ts && Ahead.symbol "!" (ts.drop 1)) = false

theorem fresh_nil : Fresh [] := ⟨rfl, rfl, rfl, rfl, rfl⟩

/-- A statement that others may follow. -/
structure Stmt (s : Tree) : Prop where
  reads : ∀ rest, Fresh rest → reach .stmt (s.toTokens ++ rest) = .ok (s, rest)
  front : ∀ rest, Fresh (s.toTokens ++ rest)
  free : mustBeLast s = false
  taken : s.toTokens ≠ []

/-- Statements up to the end of their block. -/
structure Stmts (ss : List Tree) : Prop where
  reads : ∀ n, ss.length < n → stmtsFuel reach n (ss.flatMap Tree.toTokens) = .ok (ss, [])
  front : Fresh (ss.flatMap Tree.toTokens)
  taken : ss.length ≤ (ss.flatMap Tree.toTokens).length

theorem Stmts.nil : Stmts [] where
  reads n hn := by
    obtain ⟨n, rfl⟩ := Nat.exists_eq_succ_of_ne_zero (Nat.ne_zero_of_lt hn)
    rfl
  front := fresh_nil
  taken := Nat.le_refl _

/-- One statement, and what is read behind it. -/
theorem stmtsFuel_cons {s : Tree} {ss : List Tree} {n : Nat} (hne : ts ≠ []) (hsemi : Ahead.symbol ";" ts = false)
    (hs : reach .stmt ts = .ok (s, mid)) (hlast : (mustBeLast s && !atEnd mid) = false)
    (hmore : stmtsFuel reach n mid = .ok (ss, rest)) : stmtsFuel reach (n + 1) ts = .ok (s :: ss, rest) := by
  rw [stmtsFuel, bind_get, if_neg (by simpa [atEnd] using hne), if_neg (by simp [hsemi]), bind_of_ok hs, bind_get,
    if_neg (by simp [hlast])]
  dsimp only
  rw [bind_of_ok hmore]
  rfl

theorem Stmts.cons {s : Tree} {ss : List Tree} (hs : Stmt s) (h : Stmts ss) : Stmts (s :: ss) where
  reads n hn := by
    obtain ⟨n, rfl⟩ := Nat.exists_eq_succ_of_ne_zero (Nat.ne_zero_of_lt hn)
    rw [List.flatMap_cons]
    exact stmtsFuel_cons (by simp [hs.taken]) (hs.front _).semi (hs.reads _ h.front) (by simp [hs.free])
      (h.reads n (by simpa using hn))
  front := by
    rw [List.flatMap_cons]
    exact hs.front _
  taken := by
    have htaken := List.length_pos_iff.mpr hs.taken
    have hrest := h.taken
    rw [List.flatMap_cons, List.length_append, List.length_cons]
    omega

/-- The value of a block. -/
theorem Stmts.last {s : Tree} (hreads : reach .stmt s.toTokens = .ok (s, [])) (hfront : Fresh s.toTokens)
    (htaken : s.toTokens ≠ []) : Stmts [s] where
  reads n hn := by
    obtain ⟨n, rfl⟩ := Nat.exists_eq_succ_of_ne_zero (Nat.ne_zero_of_lt hn)
    rw [List.flatMap_cons, List.flatMap_nil, List.append_nil]
    exact stmtsFuel_cons htaken hfront.semi hreads (by simp [atEnd]) (Stmts.nil.reads n (by simpa using hn))
  front := by
    rw [List.flatMap_cons, List.flatMap_nil, List.append_nil]
    exact hfront
  taken := by
    have htaken := List.length_pos_iff.mpr htaken
    rw [List.flatMap_cons, List.flatMap_nil, List.append_nil, List.length_singleton]
    omega

/-- A block in braces, with its statements. -/
def blockOf (ss : List Tree) (o c : Pos) : Tree := .node .block [.group .brace o [.noAttrs, .node .stmts ss] c]

theorem toTokens_blockOf (ss : List Tree) (o c : Pos) :
    (blockOf ss o c).toTokens = [.group .brace o (ss.flatMap Tree.toTokens) c] := by
  simp [blockOf, toTokens_node, toTokens_group, toTokens_noAttrs]

theorem Stmts.block {ss : List Tree} (h : Stmts ss) (o c : Pos) (inner : Bool) (ts : List TokenTree) :
    reach (.block inner) ((blockOf ss o c).toTokens ++ ts) = .ok (blockOf ss o c, ts) := by
  have hstmts := h.reads _ (Nat.lt_succ_of_le h.taken)
  have hcontent : blockContent reach inner (ss.flatMap Tree.toTokens) = .ok ([.noAttrs, .node .stmts ss], []) := by
    cases inner with
    | false =>
      have hnone : (pure .noAttrs : Parser Tree) (ss.flatMap Tree.toTokens) = .ok (.noAttrs, ss.flatMap Tree.toTokens) := rfl
      rw [blockContent, if_neg (by simp), bind_of_ok hnone]
      dsimp only
      rw [bind_get, bind_of_ok hstmts]
      rfl
    | true =>
      have hattrs : innerAttrs reach (ss.flatMap Tree.toTokens) = .ok (.noAttrs, ss.flatMap Tree.toTokens) := by
        have hrepeat : repeatWhile (fun ts => Ahead.symbol "#" ts && Ahead.symbol "!" (ts.drop 1)) (innerAttr reach)
            (ss.flatMap Tree.toTokens) = .ok ([], ss.flatMap Tree.toTokens) := by
          rw [repeatWhile, bind_get]
          exact repeatFuel_of_not h.front.inner _
        rw [innerAttrs, bind_of_ok hrepeat]
        rfl
      rw [blockContent, if_pos rfl, bind_of_ok hattrs]
      dsimp only
      rw [bind_get, bind_of_ok hstmts]
      rfl
  rw [toTokens_blockOf, reach_eq]
  change Parse.block reach inner _ = _
  rw [Parse.block, List.singleton_append, bind_of_ok (group_ok hcontent)]
  rfl

/-! ### Forms of statements -/

theorem Stmt.value {semi : Pos} (h : Value true t) (hclose : closeRange t = t) (hattrs : attrsToFirst .noAttrs t = t)
    (hnotCall : t.kind? ≠ some .macroExpr) (hopens : ∀ rest, Ends true rest → Opens (t.toTokens ++ rest))
    (hfront : ∀ rest, Fresh (t.toTokens ++ rest)) : Stmt (.node .exprStmt [t, .leaf (.symbol ";" semi)]) := by
  have htokens : (Tree.node .exprStmt [t, .leaf (.symbol ";" semi)]).toTokens = t.toTokens ++ [.punct ';' false semi] := by
    simp [toTokens_node, toTokens_symbol, operatorTokens]
  refine ⟨fun rest _ => ?_, fun rest => ?_, rfl, by simp [htokens]⟩
  · have hends : Ends true (.punct ';' false semi :: rest) := .semicolon ..
    rw [htokens, List.append_assoc, List.singleton_append, stmt_value h hclose hattrs hnotCall hends (hopens _ hends)]
    rfl
  · rw [htokens, List.append_assoc]
    exact hfront _

theorem Stmts.value (h : Value true t) (hclose : closeRange t = t) (hattrs : attrsToFirst .noAttrs t = t)
    (hnotCall : t.kind? ≠ some .macroExpr) (hopens : ∀ rest, Ends true rest → Opens (t.toTokens ++ rest))
    (hfront : ∀ rest, Fresh (t.toTokens ++ rest)) (htaken : t.toTokens ≠ []) : Stmts [.node .exprStmt [t, .absent]] := by
  have htokens : (Tree.node .exprStmt [t, .absent]).toTokens = t.toTokens := by simp [toTokens_node, toTokens_absent]
  refine .last ?_ (by rw [htokens]; simpa using hfront []) (by rw [htokens]; exact htaken)
  have hstmt := stmt_value h hclose hattrs hnotCall .nothing (hopens [] .nothing)
  rw [List.append_nil] at hstmt
  rw [htokens, hstmt]
  rfl

theorem Stmt.blocky (h : Blocky t) (hform : IsForm t) (hclose : closeRange t = t) (hattrs : attrsToFirst .noAttrs t = t)
    (hnotCall : t.kind? ≠ some .macroExpr) (hlike : isBlockLike t = true) (hfront : ∀ rest, Fresh (t.toTokens ++ rest))
    (htaken : t.toTokens ≠ []) : Stmt (.node .exprStmt [t, .absent]) := by
  have htokens : (Tree.node .exprStmt [t, .absent]).toTokens = t.toTokens := by simp [toTokens_node, toTokens_absent]
  refine ⟨fun rest hrest => ?_, fun rest => htokens ▸ hfront rest, by simp [mustBeLast, hlike], htokens ▸ htaken⟩
  have hsemi : symbol? ";" rest = .ok (.absent, rest) := whenAhead_not hrest.semi
  rw [htokens, stmt_blocky h hform hclose hattrs hnotCall hrest.other hrest.dot hrest.question, bind_of_ok hsemi]
  rfl

/-- A pattern with the type that it is declared to have, up to the sign of a `let`. -/
def Binds (pat : Tree) : Prop := ∀ p rest, ∃ inner mid,
  reach .pattern (pat.toTokens ++ .punct '=' false p :: rest) = .ok (inner, mid) ∧
    (if Ahead.symbol ":" mid then (do
        let colon ← symbol ":"
        return .node .typePat [.noAttrs, inner, colon, ← reach (.type true)])
      else pure inner : Parser Tree) mid = .ok (pat, .punct '=' false p :: rest)

theorem Stmt.binding {pat value : Tree} {l eq semi : Pos} (hpat : Binds pat) (hvalue : Reads true value) :
    Stmt (.node .letStmt [.noAttrs, .leaf (.word "let" l), pat, .node .letInit [.leaf (.symbol "=" eq), value, .absent],
      .leaf (.symbol ";" semi)]) := by
  have htokens : (Tree.node .letStmt [.noAttrs, .leaf (.word "let" l), pat,
      .node .letInit [.leaf (.symbol "=" eq), value, .absent], .leaf (.symbol ";" semi)]).toTokens =
        .ident "let" l :: (pat.toTokens ++ .punct '=' false eq :: (value.toTokens ++ [.punct ';' false semi])) := by
    simp [toTokens_node, toTokens_noAttrs, toTokens_word, toTokens_symbol, toTokens_absent, operatorTokens]
  refine ⟨fun rest _ => ?_, fun rest => ?_, rfl, by simp [htokens]⟩
  · obtain ⟨inner, mid, hinner, htyped⟩ := hpat eq (value.toTokens ++ .punct ';' false semi :: rest)
    let behind := value.toTokens ++ .punct ';' false semi :: rest
    have hends : Ends true (.punct ';' false semi :: rest) := .semicolon ..
    have hsemi : symbol ";" (.punct ';' false semi :: rest) = .ok (.leaf (.symbol ";" semi), rest) := symbol_ok (by decide) semi rest
    have heq : symbol "=" (.punct '=' false eq :: behind) = .ok (.leaf (.symbol "=" eq), behind) := symbol_ok (by decide) eq behind
    have hother : whenAhead (fun ts => Ahead.word "else" ts && !endsInBrace value) (do
        let e ← word "else"
        return .node .elseBranch [e, .node .blockExpr [.noAttrs, .absent, ← reach (.block false)]])
          (.punct ';' false semi :: rest) = .ok (.absent, .punct ';' false semi :: rest) := whenAhead_not rfl
    have hinit : whenAhead (Ahead.symbol "=") (do
        let eq ← symbol "="
        let value ← reach (.expr true)
        let other ← whenAhead (fun ts => Ahead.word "else" ts && !endsInBrace value) do
          let e ← word "else"
          return .node .elseBranch [e, .node .blockExpr [.noAttrs, .absent, ← reach (.block false)]]
        return .node .letInit [eq, value, other]) (.punct '=' false eq :: behind) =
          .ok (.node .letInit [.leaf (.symbol "=" eq), value, .absent], .punct ';' false semi :: rest) := by
      refine whenAhead_ok rfl ?_
      rw [bind_of_ok heq, bind_of_ok (hvalue _ hends), bind_of_ok hother]
      rfl
    have hlist : (.ident "let" l :: (pat.toTokens ++ .punct '=' false eq :: (value.toTokens ++ [.punct ';' false semi]))) ++ rest =
        .ident "let" l :: (pat.toTokens ++ .punct '=' false eq :: behind) := by
      simp [behind]
    rw [htokens, hlist, stmt_letStmt rfl rfl rfl, letStmt, bind_of_ok (word_ok "let" l _), bind_of_ok hinner, bind_get]
    -- The pattern with its type is read in one of two ways, and both go on in the same way.
    split at htyped
    · rename_i hcolon
      rw [if_pos hcolon, bind_of_ok htyped]
      dsimp only
      rw [bind_of_ok hinit, bind_of_ok hsemi]
      rfl
    · rename_i hcolon
      rw [if_neg hcolon, bind_of_ok htyped]
      dsimp only
      rw [bind_of_ok hinit, bind_of_ok hsemi]
      rfl
  · rw [htokens]
    exact ⟨rfl, rfl, rfl, rfl, rfl⟩

/-! ### Expressions that are like a block -/

/-- The label of a loop. -/
def labelOf (l : String) (p q : Pos) : Tree := .node .label [.leaf (.lifetime l p), .leaf (.symbol ":" q)]

section
variable {ss : List Tree} {o c : Pos}

theorem Stmts.blockExpr (h : Stmts ss) : Blocky (.node .blockExpr [.noAttrs, .absent, blockOf ss o c]) := by
  have htokens (rest : List TokenTree) : (Tree.node .blockExpr [.noAttrs, .absent, blockOf ss o c]).toTokens ++ rest =
      .group .brace o (ss.flatMap Tree.toTokens) c :: rest := by
    simp [toTokens_node, toTokens_noAttrs, toTokens_absent, toTokens_blockOf]
  have hblock (rest : List TokenTree) : reach (.block true) (.group .brace o (ss.flatMap Tree.toTokens) c :: rest) =
      .ok (blockOf ss o c, rest) := by
    rw [← h.block o c true rest, toTokens_blockOf]
    rfl
  refine ⟨fun rest _ => ?_, fun structs rest _ => ?_, fun rest => ?_, fun rest => ?_, fun rest => ?_, fun rest => ?_⟩
  all_goals rw [htokens]
  · change (do return some (.node .blockExpr [.noAttrs, .absent, ← reach (.block true)]) : Parser (Option Tree)) _ = _
    rw [bind_of_ok (hblock rest)]
    rfl
  · rw [atom_brace, bind_of_ok (hblock rest)]
    rfl
  all_goals first | exact ⟨rfl, rfl, rfl, rfl, rfl⟩ | rfl

theorem Stmts.loopExpr {p : Pos} (h : Stmts ss) (label : Tree) (rest : List TokenTree) :
    loopExpr reach label (.ident "loop" p :: (blockOf ss o c).toTokens ++ rest) =
      .ok (.node .loopExpr [.noAttrs, label, .leaf (.word "loop" p), blockOf ss o c], rest) := by
  rw [Parse.loopExpr, List.cons_append, bind_of_ok (word_ok "loop" p _), bind_of_ok (h.block o c true rest)]
  rfl

theorem Stmts.whileExpr {p : Pos} (h : Stmts ss) (hcond : Reads false cond) (label : Tree) (rest : List TokenTree) :
    whileExpr reach label (.ident "while" p :: (cond.toTokens ++ ((blockOf ss o c).toTokens ++ rest))) =
      .ok (.node .whileExpr [.noAttrs, label, .leaf (.word "while" p), cond, blockOf ss o c], rest) := by
  have hends : Ends false ((blockOf ss o c).toTokens ++ rest) := by
    rw [toTokens_blockOf]
    exact .block rfl ..
  rw [Parse.whileExpr, bind_of_ok (word_ok "while" p _), bind_of_ok (hcond _ hends), bind_of_ok (h.block o c true rest)]
  rfl

theorem Stmts.loop {p : Pos} (h : Stmts ss) :
    Blocky (.node .loopExpr [.noAttrs, .absent, .leaf (.word "loop" p), blockOf ss o c]) := by
  have htokens (rest : List TokenTree) : (Tree.node .loopExpr [.noAttrs, .absent, .leaf (.word "loop" p), blockOf ss o c]).toTokens ++
      rest = .ident "loop" p :: (blockOf ss o c).toTokens ++ rest := by
    simp [toTokens_node, toTokens_noAttrs, toTokens_absent, toTokens_word]
  refine ⟨fun rest _ => ?_, fun structs rest _ => ?_, fun rest => ?_, fun rest => ?_, fun rest => ?_, fun rest => ?_⟩
  all_goals rw [htokens]
  · change (do return some (← Parse.loopExpr reach .absent) : Parser (Option Tree)) _ = _
    rw [bind_of_ok (h.loopExpr .absent rest)]
    rfl
  · exact h.loopExpr .absent rest
  all_goals first | exact ⟨rfl, rfl, rfl, rfl, rfl⟩ | rfl

theorem Stmts.labelledLoop {l : String} {p q r : Pos} (h : Stmts ss) :
    Blocky (.node .loopExpr [.noAttrs, labelOf l q r, .leaf (.word "loop" p), blockOf ss o c]) := by
  have htokens (rest : List TokenTree) :
      (Tree.node .loopExpr [.noAttrs, labelOf l q r, .leaf (.word "loop" p), blockOf ss o c]).toTokens ++ rest =
        .lifetime l q :: .punct ':' false r :: (.ident "loop" p :: (blockOf ss o c).toTokens ++ rest) := by
    simp [labelOf, toTokens_node, toTokens_noAttrs, toTokens_word, toTokens_symbol, operatorTokens]
    rfl
  have hlabeled (rest : List TokenTree) :
      labeled reach (.lifetime l q :: .punct ':' false r :: (.ident "loop" p :: (blockOf ss o c).toTokens ++ rest)) =
        .ok (.node .loopExpr [.noAttrs, labelOf l q r, .leaf (.word "loop" p), blockOf ss o c], rest) :=
    h.loopExpr (labelOf l q r) rest
  refine ⟨fun rest _ => ?_, fun structs rest _ => ?_, fun rest => ?_, fun rest => ?_, fun rest => ?_, fun rest => ?_⟩
  all_goals rw [htokens]
  · change (do return some (← labeled reach) : Parser (Option Tree)) _ = _
    rw [bind_of_ok (hlabeled rest)]
    rfl
  · exact hlabeled rest
  all_goals first | exact ⟨rfl, rfl, rfl, rfl, rfl⟩ | rfl

theorem Stmts.while_ {p : Pos} (h : Stmts ss) (hcond : Reads false cond) :
    Blocky (.node .whileExpr [.noAttrs, .absent, .leaf (.word "while" p), cond, blockOf ss o c]) := by
  have htokens (rest : List TokenTree) :
      (Tree.node .whileExpr [.noAttrs, .absent, .leaf (.word "while" p), cond, blockOf ss o c]).toTokens ++ rest =
        .ident "while" p :: (cond.toTokens ++ ((blockOf ss o c).toTokens ++ rest)) := by
    simp [toTokens_node, toTokens_noAttrs, toTokens_absent, toTokens_word]
  refine ⟨fun rest _ => ?_, fun structs rest _ => ?_, fun rest => ?_, fun rest => ?_, fun rest => ?_, fun rest => ?_⟩
  all_goals rw [htokens]
  · change (do return some (← Parse.whileExpr reach .absent) : Parser (Option Tree)) _ = _
    rw [bind_of_ok (h.whileExpr hcond .absent rest)]
    rfl
  · exact h.whileExpr hcond .absent rest
  all_goals first | exact ⟨rfl, rfl, rfl, rfl, rfl⟩ | rfl

/-- The branch of an `if` for the other case, which may be left out. -/
def elsePart (reach : Reach) (n : Nat) : Parser Tree := whenAhead (Ahead.word "else") do
  let e ← word "else"
  if Ahead.word "if" (← get) then return .node .elseBranch [e, ← ifFuel reach n]
  else return .node .elseBranch [e, .node .blockExpr [.noAttrs, .absent, ← reach (.block false)]]

/-- An `if`, with as many branches as its tokens let it have. -/
def If (t : Tree) : Prop := ∀ n rest, t.toTokens.length ≤ n → Ahead.word "else" rest = false →
  ifFuel reach n (t.toTokens ++ rest) = .ok (t, rest)

theorem ifFuel_ok {other : Tree} {i : Pos} {n : Nat} (hcond : Reads false cond) (h : Stmts ss)
    (hother : elsePart reach n (other.toTokens ++ rest) = .ok (other, rest)) :
    ifFuel reach (n + 1) (.ident "if" i :: (cond.toTokens ++ ((blockOf ss o c).toTokens ++ (other.toTokens ++ rest)))) =
      .ok (.node .ifExpr [.noAttrs, .leaf (.word "if" i), cond, blockOf ss o c, other], rest) := by
  have hends : Ends false ((blockOf ss o c).toTokens ++ (other.toTokens ++ rest)) := by
    rw [toTokens_blockOf]
    exact .block rfl ..
  change (do
    let i ← word "if"
    let cond ← reach (.expr false)
    let body ← reach (.block false)
    let other ← elsePart reach n
    return .node .ifExpr [.noAttrs, i, cond, body, other] : Parser Tree) _ = _
  rw [bind_of_ok (word_ok "if" i _), bind_of_ok (hcond _ hends), bind_of_ok (h.block o c false _), bind_of_ok hother]
  rfl

theorem toTokens_if {other : Tree} {i : Pos} :
    (Tree.node .ifExpr [.noAttrs, .leaf (.word "if" i), cond, blockOf ss o c, other]).toTokens ++ rest =
      .ident "if" i :: (cond.toTokens ++ ((blockOf ss o c).toTokens ++ (other.toTokens ++ rest))) := by
  simp [toTokens_node, toTokens_noAttrs, toTokens_word]

/-- What an `if` comes to if its other branch reads. -/
theorem If.of_elsePart {other : Tree} {i : Pos} (hcond : Reads false cond) (h : Stmts ss)
    (hother : ∀ n rest, other.toTokens.length ≤ n → Ahead.word "else" rest = false →
      elsePart reach n (other.toTokens ++ rest) = .ok (other, rest)) :
    If (.node .ifExpr [.noAttrs, .leaf (.word "if" i), cond, blockOf ss o c, other]) := by
  intro n rest hn hrest
  simp only [toTokens_node, List.flatMap_cons, List.flatMap_nil, List.append_nil, List.length_append, toTokens_word,
    toTokens_noAttrs, List.length_singleton, List.length_nil] at hn
  obtain ⟨n, rfl⟩ : ∃ k, n = k + 1 := ⟨n - 1, by omega⟩
  rw [toTokens_if]
  exact ifFuel_ok hcond h (hother n rest (by omega) hrest)

theorem If.alone {i : Pos} (hcond : Reads false cond) (h : Stmts ss) :
    If (.node .ifExpr [.noAttrs, .leaf (.word "if" i), cond, blockOf ss o c, .absent]) :=
  .of_elsePart hcond h fun _ _ _ hrest => whenAhead_not hrest

theorem If.otherwise {i e : Pos} {ss' : List Tree} {o' c' : Pos} (hcond : Reads false cond) (h : Stmts ss) (h' : Stmts ss') :
    If (.node .ifExpr [.noAttrs, .leaf (.word "if" i), cond, blockOf ss o c,
      .node .elseBranch [.leaf (.word "else" e), .node .blockExpr [.noAttrs, .absent, blockOf ss' o' c']]]) := by
  refine .of_elsePart hcond h fun n rest _ _ => ?_
  have htokens : (Tree.node .elseBranch [.leaf (.word "else" e),
      .node .blockExpr [.noAttrs, .absent, blockOf ss' o' c']]).toTokens ++ rest =
        .ident "else" e :: ((blockOf ss' o' c').toTokens ++ rest) := by
    simp [toTokens_node, toTokens_noAttrs, toTokens_absent, toTokens_word]
  have hif : Ahead.word "if" ((blockOf ss' o' c').toTokens ++ rest) = false := by
    rw [toTokens_blockOf]
    rfl
  rw [htokens]
  refine whenAhead_ok rfl ?_
  rw [bind_of_ok (word_ok "else" e _), bind_get, if_neg (by simp [hif]), bind_of_ok (h'.block o' c' false rest)]
  rfl

theorem If.next {i e : Pos} {t : Tree} {j : Pos} {cs : List Tree} (hcond : Reads false cond) (h : Stmts ss)
    (hform : t = .node .ifExpr (.noAttrs :: .leaf (.word "if" j) :: cs)) (ht : If t) :
    If (.node .ifExpr [.noAttrs, .leaf (.word "if" i), cond, blockOf ss o c, .node .elseBranch [.leaf (.word "else" e), t]]) := by
  refine .of_elsePart hcond h fun n rest hn hrest => ?_
  have htokens : (Tree.node .elseBranch [.leaf (.word "else" e), t]).toTokens = .ident "else" e :: t.toTokens := by
    simp [toTokens_node, toTokens_word]
  have hif : Ahead.word "if" (t.toTokens ++ rest) = true := by
    rw [hform, toTokens_node]
    rfl
  rw [htokens, List.length_cons] at hn
  rw [htokens]
  refine whenAhead_ok rfl ?_
  rw [List.cons_append, bind_of_ok (word_ok "else" e _), bind_get, if_pos hif, bind_of_ok (ht n rest (by omega) hrest)]
  rfl

theorem If.blocky {i : Pos} {cs : List Tree} (hform : t = .node .ifExpr (.noAttrs :: .leaf (.word "if" i) :: cs)) (h : If t) :
    Blocky t := by
  have hif (rest : List TokenTree) (hrest : Ahead.word "else" rest = false) :
      ifExpr reach (t.toTokens ++ rest) = .ok (t, rest) := by
    rw [ifExpr, bind_get]
    exact h _ rest (by rw [List.length_append]; omega) hrest
  have htokens (rest : List TokenTree) : t.toTokens ++ rest = .ident "if" i :: (cs.flatMap Tree.toTokens ++ rest) := by
    rw [hform, toTokens_node]
    rfl
  refine ⟨fun rest hrest => ?_, fun structs rest hrest => ?_, fun rest => ?_, fun rest => ?_, fun rest => ?_, fun rest => ?_⟩
  · have hread := hif rest hrest
    rw [htokens] at hread ⊢
    change (do return some (← ifExpr reach) : Parser (Option Tree)) _ = _
    rw [bind_of_ok hread]
    rfl
  · have hread := hif rest hrest
    rw [htokens] at hread ⊢
    exact hread
  all_goals
    rw [htokens]
    first | exact ⟨rfl, rfl, rfl, rfl, rfl⟩ | rfl

end

theorem Blocky.base (h : Blocky t) : Base t := fun structs rest _ _ hrest _ htrailers hform =>
  unary_atom (h.bare rest) (h.atom structs rest hrest.other) htrailers hform

/-! ### Expressions that leave a loop or the function -/

/-- What reads as it stands is an expression where it ends. -/
theorem value_of_atom (hform : IsForm t) (hbare : ∀ rest, Bare (t.toTokens ++ rest))
    (hatom : ∀ rest, Ends structs rest → atom reach structs (t.toTokens ++ rest) = .ok (t, rest)) : Value structs t :=
  fun rest hrest => ⟨t, rest, unary_atom (hbare rest) (hatom rest hrest) (trailers_calm hrest.calm) hform, hform, climb_ends hrest⟩

theorem exprAhead_ends (h : Ends true rest) : exprAhead rest = false := by
  cases h with
  | nothing | comma | semicolon => rfl
  | block h => cases h

/-- Tokens that start with no colon, as the value behind a label must. -/
def NoColon (t : Tree) : Prop := ∀ rest, Ahead.symbol ":" (t.toTokens ++ rest) = false

section
variable {value : Tree} {r b : Pos} {l : String}

theorem bare_word {w : String} (hw : w ∈ ["return", "break"]) (p : Pos) (ts : List TokenTree) : Bare (.ident w p :: ts) := by
  simp only [List.mem_cons, List.not_mem_nil, or_false] at hw
  rcases hw with rfl | rfl <;> exact ⟨rfl, rfl, rfl, rfl, rfl⟩

theorem atom_return (p : Pos) (ts : List TokenTree) : atom reach structs (.ident "return" p :: ts) = (do
    let r ← word "return"
    return .node .returnExpr [.noAttrs, r, ← whenAhead exprAhead (reach (.expr true))] : Parser Tree) (.ident "return" p :: ts) :=
  rfl

theorem atom_break (p : Pos) (ts : List TokenTree) : atom reach true (.ident "break" p :: ts) = (do
    let b ← word "break"
    let l ← lifetime?
    if l.isPresent && Ahead.symbol ":" (← get) then
      set ts
      let _ ← reach (.expr true)
      refuse
    return .node .breakExpr [.noAttrs, b, l, ← whenAhead (fun ts => exprAhead ts && (true || !Ahead.group .brace ts))
      (reach (.expr true))] : Parser Tree) (.ident "break" p :: ts) :=
  rfl

/-- What is read behind `break`: a label that is not one of a loop, and a value. -/
theorem atom_break_ok {p : Pos} {label : Tree} {m : List TokenTree} (hlabel : lifetime? ts = .ok (label, m))
    (hcolon : (label.isPresent && Ahead.symbol ":" m) = false)
    (hvalue : whenAhead (fun ts => exprAhead ts && (true || !Ahead.group .brace ts)) (reach (.expr true)) m =
      .ok (t, rest)) :
    atom reach true (.ident "break" p :: ts) = .ok (.node .breakExpr [.noAttrs, .leaf (.word "break" p), label, t], rest) := by
  rw [atom_break, bind_of_ok (word_ok "break" p ts), bind_of_ok hlabel, bind_get, if_neg (by simp [hcolon])]
  dsimp only
  rw [bind_of_ok hvalue]
  rfl

theorem value_return : Value true (.node .returnExpr [.noAttrs, .leaf (.word "return" r), .absent]) := by
  have htokens (rest : List TokenTree) : (Tree.node .returnExpr [.noAttrs, .leaf (.word "return" r), .absent]).toTokens ++ rest =
      .ident "return" r :: rest := rfl
  refine value_of_atom (isForm_node (by decide)) (fun rest => htokens rest ▸ bare_word (by simp) r rest) fun rest hrest => ?_
  have hnone : whenAhead exprAhead (reach (.expr true)) rest = .ok (.absent, rest) := whenAhead_not (exprAhead_ends hrest)
  rw [htokens, atom_return, bind_of_ok (word_ok "return" r rest), bind_of_ok hnone]
  rfl

theorem Value.return_ (h : Value true value) (hahead : ∀ rest, exprAhead (value.toTokens ++ rest) = true) :
    Value true (.node .returnExpr [.noAttrs, .leaf (.word "return" r), value]) := by
  have htokens (rest : List TokenTree) : (Tree.node .returnExpr [.noAttrs, .leaf (.word "return" r), value]).toTokens ++ rest =
      .ident "return" r :: (value.toTokens ++ rest) := by
    simp [toTokens_node, toTokens_noAttrs, toTokens_word]
  refine value_of_atom (isForm_node (by decide)) (fun rest => htokens rest ▸ bare_word (by simp) r _) fun rest hrest => ?_
  have hvalue := whenAhead_ok (hahead rest) (h.reads rest hrest)
  rw [htokens, atom_return, bind_of_ok (word_ok "return" r _), bind_of_ok hvalue]
  rfl

/-- A `break` with its label and value, each of which may be left out. -/
theorem value_break {label : Tree} (hlabel : label = .absent ∨ ∃ l q, label = .leaf (.lifetime l q))
    (hvalue : value = .absent ∨ (Value true value ∧ ∀ rest, Ends true rest → exprAhead (value.toTokens ++ rest) = true ∧
      Ahead.lifetime (value.toTokens ++ rest) = false))
    (hcolon : label.isPresent = true → NoColon value ∨ value = .absent) :
    Value true (.node .breakExpr [.noAttrs, .leaf (.word "break" b), label, value]) := by
  have htokens (rest : List TokenTree) : (Tree.node .breakExpr [.noAttrs, .leaf (.word "break" b), label, value]).toTokens ++ rest =
      .ident "break" b :: (label.toTokens ++ (value.toTokens ++ rest)) := by
    simp [toTokens_node, toTokens_noAttrs, toTokens_word]
  refine value_of_atom (isForm_node (by decide)) (fun rest => htokens rest ▸ bare_word (by simp) b _) fun rest hrest => ?_
  have hends : exprAhead rest = false := exprAhead_ends hrest
  have hread : whenAhead (fun ts => exprAhead ts && (true || !Ahead.group .brace ts)) (reach (.expr true))
      (value.toTokens ++ rest) = .ok (value, rest) := by
    rcases hvalue with rfl | ⟨hvalue, hfront⟩
    · exact whenAhead_not (by rw [toTokens_absent, List.nil_append, hends]; rfl)
    · exact whenAhead_ok (by rw [(hfront rest hrest).1]; rfl) (hvalue.reads rest hrest)
  rw [htokens]
  refine atom_break_ok (m := value.toTokens ++ rest) ?_ ?_ hread
  · rcases hlabel with rfl | ⟨l, q, rfl⟩
    · refine whenAhead_not ?_
      rcases hvalue with rfl | ⟨-, hfront⟩
      · cases hrest <;> first | rfl | contradiction
      · exact (hfront rest hrest).2
    · rfl
  · cases hpresent : label.isPresent with
    | false => rfl
    | true =>
      rcases hcolon hpresent with hcolon | rfl
      · exact hcolon rest
      · cases hrest <;> first | rfl | contradiction

end

end CallProbe.Source.Parse
