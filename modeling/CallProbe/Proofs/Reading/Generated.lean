import CallProbe.Proofs.Reading.Macros
import CallProbe.Source.Make

/-! # Generated code

What is put into a function is written by the same rules: bindings, statics with their types, and calls of macros. -/

namespace CallProbe.Source.Parse

open Grammar Grouping

variable {structs inExpr : Bool} {e : Bool} {p : Precedence} {t type value : Tree} {ts rest : List TokenTree} {n : String}

/-! ### Types and patterns -/

/-- An operand that is declared to be of a type. -/
theorem Operand.cast {n : Bool} {left : Tree} {a : Pos} (h : Operand e n left) (hread : ReadsType type) :
    Valued e (.node .castExpr [.noAttrs, left, .leaf (.word "as" a), type]) := by
  have htokens (rest : List TokenTree) : (Tree.node .castExpr [.noAttrs, left, .leaf (.word "as" a), type]).toTokens ++
      rest = left.toTokens ++ .ident "as" a :: (type.toTokens ++ rest) := by
    simp [toTokens_node, toTokens_noAttrs, toTokens_word]
  refine ⟨fun rest hrest => ⟨left, .ident "as" a :: (type.toTokens ++ rest), ?_, h.shape.form, ?_⟩, by simp [Tree.kind?], fun s hs _ => ?_, ?_,
    fun rest => ?_, fun he => ⟨fun rest _ => ?_, by simp [Tree.kind?]⟩⟩
  · rw [htokens]
    exact h.base.unary h.shape.form ⟨⟨rfl, rfl, rfl, fun _ => rfl⟩, rfl, rfl, rfl, rfl⟩
  · have hop : operatorAhead (.ident "as" a :: (type.toTokens ++ rest)) = none := rfl
    have hassign : assignAhead (.ident "as" a :: (type.toTokens ++ rest)) = false := rfl
    have hdots : Ahead.symbol ".." (.ident "as" a :: (type.toTokens ++ rest)) = false := rfl
    have has : Ahead.word "as" (.ident "as" a :: (type.toTokens ++ rest)) = true := rfl
    have htype : AfterType rest := by cases hrest <;> exact ⟨rfl, rfl, rfl, rfl⟩
    have hdone : castGoesOn rest = false := by
      have hcalm := hrest.calm
      simp [castGoesOn, hcalm.dot, hcalm.question, hcalm.bracket, hcalm.paren]
    conv => lhs; rw [reach_eq]
    change climb reach left true .jump _ = _
    rw [climb, bind_get, if_neg (by simpa using h.shape.range), hop]
    dsimp only
    rw [if_neg (by simp [hassign]), if_neg (by simp [hdots]), if_pos (by simp [has, Precedence.rank]),
      bind_of_ok (word_ok "as" a _), bind_of_ok (hread.reads false _ htype), bind_get, if_neg (by simp [hdone])]
    exact climb_ends hrest
  · have hl : Grouping.leftApart .least (s.leftOf .cast false) .cast left = false :=
      h.shape.leftApart _ (by decide) (by simp) (by simp)
    rw [tree_cast]
    dsimp only
    rw [hl, settled_noAttrs, hread.settled]
    exact congrArg (fun l => Tree.node .castExpr [.noAttrs, l, .leaf (.word "as" a), type]) (h.shape.grouped _ hs)
  · rw [attrsToFirst, h.shape.first]
  · rw [htokens]
    exact h.shape.front _
  · rw [htokens]
    exact (h.early he).opens _ ⟨rfl, rfl, rfl, fun _ => rfl⟩

/-- A name as a pattern, which may be declared to change. -/
inductive NamePattern : Tree → Prop where
  | fixed {n : String} {p : Pos} (hn : IsName n) : NamePattern (.node .identPat [.noAttrs, .absent, .absent, .leaf (.word n p), .absent])
  | mutable {n : String} {p q : Pos} (hn : IsName n) :
      NamePattern (.node .identPat [.noAttrs, .absent, .leaf (.word "mut" q), .leaf (.word n p), .absent])
  | blank {p : Pos} : NamePattern (.node .wildPat [.noAttrs, .leaf (.word "_" p)])

/-- A name is read up to the sign or the type behind it. -/
theorem NamePattern.reads {pat : Tree} (h : NamePattern pat) {x : Char} (hx : x = '=' ∨ x = ':') (p : Pos) :
    reach .pattern (pat.toTokens ++ .punct x false p :: ts) = .ok (pat, .punct x false p :: ts) := by
  rw [reach_eq]
  change pattern reach _ = _
  cases h with
  | @fixed n q hn =>
    have htokens : (Tree.node .identPat [.noAttrs, .absent, .absent, .leaf (.word n q), .absent]).toTokens ++ .punct x false p :: ts =
        .ident n q :: .punct x false p :: ts := rfl
    have hname : Ahead.name (.ident n q :: .punct x false p :: ts) = true := by rw [Ahead.name, hn.keyword]; rfl
    have hopens : (Ahead.symbol "::" (.punct x false p :: ts) || Ahead.symbol "!" (.punct x false p :: ts) ||
        Ahead.group .brace (.punct x false p :: ts) || Ahead.group .paren (.punct x false p :: ts) ||
          Ahead.symbol ".." (.punct x false p :: ts)) = false := by
      rcases hx with rfl | rfl <;> rfl
    have hliteral : Ahead.literal (.ident n q :: .punct x false p :: ts) = false := by
      simp [Ahead.literal, hn.ne (w := "true") (by decide), hn.ne (w := "false") (by decide)]
    have hpath : Ahead.oneOf ["Self", "super", "crate"] (.ident n q :: .punct x false p :: ts) = false := hn.oneOf (by decide) q _
    have hword {w : String} (hw : reserved.contains w = true) : Ahead.word w (.ident n q :: .punct x false p :: ts) = false :=
      hn.word hw q _
    have hcolons : Ahead.symbol "::" (.ident n q :: .punct x false p :: ts) = false := rfl
    have hangle : Ahead.symbol "<" (.ident n q :: .punct x false p :: ts) = false := rfl
    have hminus : Ahead.symbol "-" (.ident n q :: .punct x false p :: ts) = false := rfl
    have hsub : whenAhead (Ahead.symbol "@") (do return .node .subpattern [← symbol "@", ← reach .pattern])
        (.punct x false p :: ts) = .ok (.absent, .punct x false p :: ts) :=
      whenAhead_not (by rcases hx with rfl | rfl <;> rfl)
    have href : word? "ref" (.ident n q :: .punct x false p :: ts) = .ok (.absent, .ident n q :: .punct x false p :: ts) :=
      whenAhead_not (hword (by decide))
    have hmut : word? "mut" (.ident n q :: .punct x false p :: ts) = .ok (.absent, .ident n q :: .punct x false p :: ts) :=
      whenAhead_not (hword (by decide))
    rw [htokens, pattern, bind_get]
    dsimp only
    rw [if_neg, if_neg (by simp [hword (w := "_") (by decide)]), if_neg, if_neg, if_pos (by simp [hname]), bind_of_ok href,
      bind_of_ok hmut, bind_get, if_neg (by simp [hword (w := "self") (by decide)]), bind_of_ok (name_ok hn.keyword q _),
      bind_of_ok hsub]
    · rfl
    · simp [hliteral, hword (w := "const") (by decide), hminus]
    · simp [hword (w := "box") (by decide)]
    · rw [List.drop_succ_cons, List.drop_zero, hopens]
      simp [hword (w := "self") (by decide), hpath, hcolons, hangle]
  | @mutable n q r hn =>
    have htokens : (Tree.node .identPat [.noAttrs, .absent, .leaf (.word "mut" r), .leaf (.word n q), .absent]).toTokens ++
        .punct x false p :: ts = .ident "mut" r :: .ident n q :: .punct x false p :: ts := rfl
    have hsub : whenAhead (Ahead.symbol "@") (do return .node .subpattern [← symbol "@", ← reach .pattern])
        (.punct x false p :: ts) = .ok (.absent, .punct x false p :: ts) :=
      whenAhead_not (by rcases hx with rfl | rfl <;> rfl)
    have hname : Ahead.name (.ident "mut" r :: .ident n q :: .punct x false p :: ts) = false := rfl
    have hself : Ahead.word "self" (.ident "mut" r :: .ident n q :: .punct x false p :: ts) = false := rfl
    have hpath : Ahead.oneOf ["Self", "super", "crate"] (.ident "mut" r :: .ident n q :: .punct x false p :: ts) = false := rfl
    have hcolons : Ahead.symbol "::" (.ident "mut" r :: .ident n q :: .punct x false p :: ts) = false := rfl
    have hangle : Ahead.symbol "<" (.ident "mut" r :: .ident n q :: .punct x false p :: ts) = false := rfl
    have hblank : Ahead.word "_" (.ident "mut" r :: .ident n q :: .punct x false p :: ts) = false := rfl
    have hbox : Ahead.word "box" (.ident "mut" r :: .ident n q :: .punct x false p :: ts) = false := rfl
    have hbound : (Ahead.symbol "-" (.ident "mut" r :: .ident n q :: .punct x false p :: ts) ||
        Ahead.literal (.ident "mut" r :: .ident n q :: .punct x false p :: ts) ||
          Ahead.word "const" (.ident "mut" r :: .ident n q :: .punct x false p :: ts)) = false := rfl
    have hopen : Ahead.oneOf ["ref", "mut", "self"] (.ident "mut" r :: .ident n q :: .punct x false p :: ts) = true := rfl
    rw [htokens, pattern, bind_get]
    dsimp only
    rw [if_neg (by simp [hname, hself, hpath, hcolons, hangle]), if_neg (by simp [hblank]), if_neg (by simp [hbox]),
      if_neg (by simp [hbound]), if_pos (by simp [hopen])]
    have href : word? "ref" (.ident "mut" r :: .ident n q :: .punct x false p :: ts) =
        .ok (.absent, .ident "mut" r :: .ident n q :: .punct x false p :: ts) := rfl
    have hmut : word? "mut" (.ident "mut" r :: .ident n q :: .punct x false p :: ts) =
        .ok (.leaf (.word "mut" r), .ident n q :: .punct x false p :: ts) := rfl
    rw [bind_of_ok href, bind_of_ok hmut, bind_get, if_neg (by simp [hn.word (w := "self") (by decide)]),
      bind_of_ok (name_ok hn.keyword q _), bind_of_ok hsub]
    rfl
  | blank => rfl

theorem NamePattern.binds {pat : Tree} (h : NamePattern pat) : Binds pat := by
  intro p rest
  refine ⟨pat, _, h.reads (.inl rfl) p, ?_⟩
  rw [if_neg (by simp [Ahead.symbol, Ahead.chars])]
  rfl

/-- A name with the type that it is declared to have. -/
theorem NamePattern.binds_type {pat type : Tree} (h : NamePattern pat) (htype : ReadsType type) {c : Pos} :
    Binds (.node .typePat [.noAttrs, pat, .leaf (.symbol ":" c), type]) := by
  intro p rest
  have htokens : (Tree.node .typePat [.noAttrs, pat, .leaf (.symbol ":" c), type]).toTokens ++
      .punct '=' false p :: rest = pat.toTokens ++ .punct ':' false c :: (type.toTokens ++ .punct '=' false p :: rest) := by
    simp [toTokens_node, toTokens_noAttrs, toTokens_symbol, operatorTokens]
  have hcolon : symbol ":" (.punct ':' false c :: (type.toTokens ++ .punct '=' false p :: rest)) =
      .ok (.leaf (.symbol ":" c), type.toTokens ++ .punct '=' false p :: rest) := symbol_ok (by decide) c _
  refine ⟨pat, _, htokens ▸ h.reads (.inr rfl) c, ?_⟩
  rw [if_pos (show Ahead.symbol ":" (.punct ':' false c :: (type.toTokens ++ .punct '=' false p :: rest)) = true from rfl),
    bind_of_ok hcolon, bind_of_ok (htype.reads true _ ⟨rfl, rfl, rfl, rfl⟩)]
  rfl

theorem NamePattern.settled {pat : Tree} (h : NamePattern pat) : Settled pat := by
  cases h <;> exact grouped_node (by simp [partCount?]) (by simp [settled_leaf, settled_absent, settled_noAttrs]) {}

/-! ### Statics -/

section
variable {s p c q semi : Pos} (hn : IsName n) (htype : ReadsType type) (hvalue : Reads true value)
include hn htype hvalue

theorem itemRest_static (begin : List TokenTree) :
    itemRest reach begin .absent (.ident "static" s :: .ident n p :: .punct ':' false c :: (type.toTokens ++
      .punct '=' false q :: (value.toTokens ++ .punct ';' false semi :: ts))) =
        .ok (.node .staticItem [.noAttrs, .absent, .leaf (.word "static" s), .absent, .leaf (.word n p), .leaf (.symbol ":" c),
          type, .leaf (.symbol "=" q), value, .leaf (.symbol ";" semi)], ts) := by
  let afterEq := value.toTokens ++ .punct ';' false semi :: ts
  let afterColon := type.toTokens ++ .punct '=' false q :: afterEq
  have hmut : word? "mut" (.ident n p :: .punct ':' false c :: afterColon) =
      .ok (.absent, .ident n p :: .punct ':' false c :: afterColon) := whenAhead_not (hn.word (by decide) p _)
  have hcolon : symbol? ":" (.punct ':' false c :: afterColon) = .ok (.leaf (.symbol ":" c), afterColon) :=
    whenAhead_ok rfl (symbol_ok (by decide) c _)
  have hpart : partWhen true (reach (.type true)) afterColon = .ok (type, .punct '=' false q :: afterEq) :=
    htype.reads true _ ⟨rfl, rfl, rfl, rfl⟩
  have heq : symbol? "=" (.punct '=' false q :: afterEq) = .ok (.leaf (.symbol "=" q), afterEq) :=
    whenAhead_ok rfl (symbol_ok (by decide) q _)
  have hread : partWhen true (reach (.expr true)) afterEq = .ok (value, .punct ';' false semi :: ts) := hvalue _ (.semicolon ..)
  have hsemi : symbol ";" (.punct ';' false semi :: ts) = .ok (.leaf (.symbol ";" semi), ts) := symbol_ok (by decide) semi ts
  change itemRest reach begin .absent (.ident "static" s :: .ident n p :: .punct ':' false c :: afterColon) = _
  have hsignature : signatureAhead false (.ident "static" s :: .ident n p :: .punct ':' false c :: afterColon) = false := rfl
  have hforeign : Ahead.word "extern" (.ident "static" s :: .ident n p :: .punct ':' false c :: afterColon) = false := rfl
  have huse : Ahead.word "use" (.ident "static" s :: .ident n p :: .punct ':' false c :: afterColon) = false := rfl
  have hstatic : Ahead.word "static" (.ident "static" s :: .ident n p :: .punct ':' false c :: afterColon) = true := rfl
  rw [itemRest, bind_get]
  dsimp only
  rw [if_neg (by simp [hsignature]), if_neg (by simp [hforeign]), if_neg (by simp [huse]), if_pos hstatic,
    bind_of_ok (word_ok "static" s _), bind_of_ok hmut, bind_of_ok (name_ok hn.keyword p _), bind_of_ok hcolon]
  dsimp only [Tree.isPresent]
  rw [bind_of_ok hpart, bind_of_ok heq]
  dsimp only
  rw [bind_of_ok hread, bind_of_ok hsemi]
  rfl

theorem stmt_static : Stmt (.node .itemStmt [.node .staticItem [.noAttrs, .absent, .leaf (.word "static" s), .absent,
    .leaf (.word n p), .leaf (.symbol ":" c), type, .leaf (.symbol "=" q), value, .leaf (.symbol ";" semi)]]) := by
  let t : Tree := .node .staticItem [.noAttrs, .absent, .leaf (.word "static" s), .absent, .leaf (.word n p),
    .leaf (.symbol ":" c), type, .leaf (.symbol "=" q), value, .leaf (.symbol ";" semi)]
  have htokens (rest : List TokenTree) : (Tree.node .itemStmt [t]).toTokens ++ rest =
      .ident "static" s :: .ident n p :: .punct ':' false c :: (type.toTokens ++
        .punct '=' false q :: (value.toTokens ++ .punct ';' false semi :: rest)) := by
    simp [t, toTokens_node, toTokens_noAttrs, toTokens_absent, toTokens_word, toTokens_symbol, operatorTokens]
  refine ⟨fun rest _ => ?_, fun rest => htokens rest ▸ ⟨rfl, rfl, rfl, rfl, rfl⟩, rfl, fun hnil => ?_⟩
  · rw [htokens]
    let ts := .ident "static" s :: .ident n p :: .punct ':' false c :: (type.toTokens ++
      .punct '=' false q :: (value.toTokens ++ .punct ';' false semi :: rest))
    have hvis : visibility ts = .ok (.absent, ts) := whenAhead_not rfl
    have hitem : reach .item ts = .ok (t, rest) := by
      rw [reach_eq]
      change item reach ts = _
      rw [item, bind_get, bind_of_ok (outerAttrs_none rfl), bind_of_ok hvis, bind_of_ok (itemRest_static hn htype hvalue ts)]
      rfl
    have hahead : itemAhead ts = true := by
      have hname : Ahead.name (.ident n p :: .punct ':' false c :: (type.toTokens ++
          .punct '=' false q :: (value.toTokens ++ .punct ';' false semi :: rest))) = true := by
        rw [Ahead.name, hn.keyword]
        rfl
      simp [itemAhead, ts, Ahead.word, hname]
    have hset : (set ts : Parser PUnit) ts = .ok ((), ts) := rfl
    change reach .stmt ts = _
    rw [stmt_eq, stmt, bind_get, bind_of_ok (outerAttrs_none rfl), bind_get, show pathStart ts = .other from rfl]
    dsimp only
    rw [if_neg (show ¬Ahead.word "let" ts = true from by simp [ts, Ahead.word]), if_pos hahead, itemStmt, bind_of_ok hset, bind_of_ok hitem]
    rfl
  · have := htokens []
    rw [hnil] at this
    cases this

end

theorem settled_static {n : String} {s p c q semi : Pos} (htype : ReadsType type) (hvalue : Settled value) :
    Settled (.node .itemStmt [.node .staticItem [.noAttrs, .absent, .leaf (.word "static" s), .absent,
      .leaf (.word n p), .leaf (.symbol ":" c), type, .leaf (.symbol "=" q), value, .leaf (.symbol ";" semi)]]) := by
  refine grouped_node (by simp [partCount?]) (List.forall_mem_singleton.mpr (grouped_node (by simp [partCount?]) ?_ {})) {}
  simp [htype.settled, hvalue, settled_leaf, settled_absent, settled_noAttrs]

/-! ### Trees that are made -/

theorem exists_segments (n : String) {names : List String} (h : ∀ m ∈ names, IsName m) (pos : Pos) :
    ∃ more, (((n :: names).map fun n => Tree.node .segment [Make.word n pos, .absent]).intersperse (Make.symbol "::" pos)) =
      segmentOf n pos :: more ∧ Segments more := by
  induction names generalizing n with
  | nil => exact ⟨[], rfl, .nil⟩
  | cons m names ih =>
    obtain ⟨more, hmore, hsegments⟩ := ih m fun k hk => h k (by simp [hk])
    refine ⟨Make.symbol "::" pos :: segmentOf m pos :: more, ?_, .cons (h m (by simp)) hsegments⟩
    rw [← hmore]
    rfl

theorem names_root {names : List String} (hne : names ≠ []) (h : ∀ n ∈ names, IsName n) (pos : Pos) : Names (Make.path true names pos) := by
  cases names with
  | nil => exact absurd rfl hne
  | cons n names =>
    obtain ⟨more, hmore, hsegments⟩ := exists_segments n (fun m hm => h m (List.mem_cons_of_mem n hm)) pos
    rw [Make.path, if_pos rfl, hmore]
    exact .root (h n (by simp)) hsegments

theorem valued_literal (l : String) : Valued true (Make.literal l) := (operand_literal l Pos.none).leading.chained.valued

theorem valued_name (hn : IsName n) : Valued true (Make.nameExpr n) :=
  (operand_path (.start (.inl hn) (fun h => absurd h (hn.ne (by decide))) .nil)).leading.chained.valued

theorem valued_reference (hn : IsName n) : Valued true (Make.reference n) :=
  (operand_path (.start (.inl hn) (fun h => absurd h (hn.ne (by decide))) .nil)).leading.reference.chained.valued

/-- The call of a macro without arguments that is no list of expressions. -/
theorem valued_rootMacro {names : List String} (hne : names ≠ []) (h : ∀ n ∈ names, IsName n)
    (hexprs : isExpressionMacro (Make.path true names) = false) : Valued false (Make.rootMacro names) :=
  (operand_macroOf (names_root hne h Pos.none) (.tokens hexprs)).leading.chained.valued

theorem separated_terminated {args : List Tree} (h : ∀ a ∈ args, Valued false a) : Separated (Make.terminated args) := by
  induction args with
  | nil => exact .nil
  | cons a args ih =>
    have ha := h a (by simp)
    exact .cons ha.value.reads ha.taken (ih fun b hb => h b (by simp [hb]))

theorem settled_terminated {args : List Tree} (h : ∀ a ∈ args, Valued false a) : ∀ t ∈ Make.terminated args, Settled t := by
  intro t ht
  obtain ⟨a, ha, ht⟩ := List.mem_flatMap.mp ht
  simp only [List.mem_cons, List.not_mem_nil, or_false] at ht
  rcases ht with rfl | rfl
  · exact (h _ ha).settled
  · rfl

theorem Valued.late (h : Valued e t) : Valued false t := ⟨h.value, h.range, h.grouped, h.first, h.front, fun he => by cases he⟩

/-- The call of a function of the runtime or of the standard library. -/
theorem operand_rootCall {names : List String} {args : List Tree} (hne : names ≠ []) (h : ∀ n ∈ names, IsName n) (pos : Pos)
    (hargs : Separated args) (hsettled : ∀ a ∈ args, Settled a) : Operand true false (Make.call (Make.rootPath names pos) args pos) :=
  (operand_path ((names_root hne h pos).generic true)).call hargs hsettled

theorem stmt_staticItem {names : List String} (hn : IsName n) (hne : names ≠ []) (h : ∀ n ∈ names, IsName n) (hvalue : Valued e value) :
    Stmt (Make.itemStmt (Make.staticItem n (Make.rootType names) value)) ∧
      Settled (Make.itemStmt (Make.staticItem n (Make.rootType names) value)) :=
  ⟨stmt_static hn ((names_root hne h Pos.none).generic false).type hvalue.value.reads,
    settled_static ((names_root hne h Pos.none).generic false).type hvalue.settled⟩

theorem stmt_binding {pat : Tree} (hpat : Binds pat) (hsettled : Settled pat) (hvalue : Valued e value) :
    Stmt (Make.letStmt pat value) ∧ Settled (Make.letStmt pat value) :=
  ⟨.binding hpat hvalue.value.reads, settled_letStmt hsettled hvalue.settled⟩

theorem namePattern_make (hn : IsName n) : NamePattern (Make.namePat n) := .fixed hn

end CallProbe.Source.Parse
