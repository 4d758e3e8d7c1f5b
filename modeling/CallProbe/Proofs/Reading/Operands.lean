import CallProbe.Proofs.Grammar.Followed
import CallProbe.Proofs.Grammar.Nesting
import CallProbe.Source.Grouping

/-! # Operands

The tokens of an operand are read back as that operand, whatever stands behind it: `Base` says so of a tree, for whatever
reads on behind it, and `Reads` of a whole expression in front of its end. -/

namespace CallProbe.Source.Parse

open Grammar

variable {α : Type} {structs : Bool} {ts rest rest' : List TokenTree} {t e : Tree}

/-! ### What follows -/

/-- Tokens that end an expression: none, a comma, a semicolon, or the block after a condition. -/
inductive Ends (structs : Bool) : List TokenTree → Prop where
  | nothing : Ends structs []
  | comma (joint : Bool) (p : Pos) (ts : List TokenTree) : Ends structs (.punct ',' joint p :: ts)
  | semicolon (joint : Bool) (p : Pos) (ts : List TokenTree) : Ends structs (.punct ';' joint p :: ts)
  | block (h : structs = false) (o c : Pos) (content ts : List TokenTree) : Ends structs (.group .brace o content c :: ts)

/-- Tokens behind an operand that do not go on with it: such as end an expression, or an operator. -/
inductive Stops (structs : Bool) : List TokenTree → Prop where
  | ends {ts : List TokenTree} (h : Ends structs ts) : Stops structs ts
  | operator {s : String} {p : Precedence} (h : (s, p) ∈ binaryOperators) (pos : Pos) (ts : List TokenTree) :
      Stops structs (operatorTokens pos s.toList ++ ts)
  | assign (p : Pos) (ts : List TokenTree) : Stops structs (.punct '=' false p :: ts)

/-- Tokens that do not belong to the path in front of them. -/
structure After (structs : Bool) (ts : List TokenTree) : Prop where
  colons : Ahead.symbol "::" ts = false
  bang : bangAhead ts = false
  other : Ahead.word "else" ts = false
  brace : structs = true → Ahead.group .brace ts = false

/-- Tokens that do not go on with an operand. -/
structure Calm (structs : Bool) (ts : List TokenTree) : Prop extends After structs ts where
  paren : Ahead.group .paren ts = false
  bracket : Ahead.group .bracket ts = false
  dot : dotAhead ts = false
  question : Ahead.symbol "?" ts = false

theorem Ends.calm (h : Ends structs ts) : Calm structs ts := by
  cases h with
  | nothing | comma | semicolon => exact ⟨⟨rfl, rfl, rfl, fun _ => rfl⟩, rfl, rfl, rfl, rfl⟩
  | block h => exact ⟨⟨rfl, rfl, rfl, fun hs => absurd hs (by simp [h])⟩, rfl, rfl, rfl, rfl⟩

theorem calm_operator (pos : Pos) (ts : List TokenTree) :
    ∀ op ∈ binaryOperators, Calm structs (operatorTokens pos op.1.toList ++ ts) := by
  simp only [binaryOperators, List.forall_mem_cons, List.not_mem_nil, false_imp_iff, implies_true, and_true]
  and_intros
  all_goals exact ⟨⟨rfl, rfl, rfl, fun _ => rfl⟩, rfl, rfl, rfl, rfl⟩

theorem Stops.calm (h : Stops structs ts) : Calm structs ts := by
  cases h with
  | ends h => exact h.calm
  | operator h pos ts => exact calm_operator pos ts _ h
  | assign => exact ⟨⟨rfl, rfl, rfl, fun _ => rfl⟩, rfl, rfl, rfl, rfl⟩

/-! ### Bracketed parts -/

theorem whenAhead_ok {test : List TokenTree → Bool} {p : Parser Tree} (htest : test ts = true) (hp : p ts = .ok (t, rest)) :
    whenAhead test p ts = .ok (t, rest) := by
  rw [whenAhead, bind_get, if_pos htest, hp]

theorem whenAhead_not {test : List TokenTree → Bool} {p : Parser Tree} (htest : test ts = false) :
    whenAhead test p ts = .ok (.absent, ts) := by
  rw [whenAhead, bind_get, if_neg (by simp [htest])]
  rfl

theorem repeatFuel_cons {test : List TokenTree → Bool} {p : Parser α} {n : Nat} {mid : List TokenTree} {a : α} {as : List α}
    (htest : test ts = true) (hp : p ts = .ok (a, mid)) (hmore : repeatFuel test p n mid = .ok (as, rest)) :
    repeatFuel test p (n + 1) ts = .ok (a :: as, rest) := by
  rw [repeatFuel_succ, if_pos htest, hp]
  simp only [Except.bind, hmore]

theorem within_ok {p : Parser α} {content : List TokenTree} {a : α} (h : p content = .ok (a, [])) :
    within content p ts = .ok (a, ts) := by
  rw [within, h]

theorem group_ok {d : Delimiter} {p : Parser (List Tree)} {o c : Pos} {content : List TokenTree} {cs : List Tree}
    (h : p content = .ok (cs, [])) : group d p (.group d o content c :: ts) = .ok (.group d o cs c, ts) := by
  rw [group, bind_get]
  simp only [beq_self_eq_true, if_true]
  change (within content p >>= fun cs => (pure (Tree.group d o cs c) : Parser Tree)) ts = _
  rw [bind_of_ok (within_ok h)]
  rfl

/-- A parser of one part that is put into brackets. -/
theorem group_single {d : Delimiter} {p : Parser Tree} {o c : Pos} {content : List TokenTree}
    (h : p content = .ok (t, [])) :
    group d (do return [← p]) (.group d o content c :: ts) = .ok (.group d o [t] c, ts) :=
  group_ok (by rw [bind_of_ok h]; rfl)

/-! ### Words and operators -/

theorem length_operatorTokens (pos : Pos) (cs : List Char) : (operatorTokens pos cs).length = cs.length := by
  fun_induction operatorTokens pos cs <;> simp_all

theorem chars_operatorTokens (pos : Pos) (cs : List Char) (ts : List TokenTree) :
    Ahead.chars cs (operatorTokens pos cs ++ ts) = true := by
  fun_induction operatorTokens pos cs <;> simp_all [Ahead.chars]

theorem startOf_operatorTokens (pos : Pos) {cs : List Char} (hcs : cs ≠ []) (ts : List TokenTree) :
    startOf (operatorTokens pos cs ++ ts) = pos := by
  match cs with
  | [] => exact absurd rfl hcs
  | [_] | _ :: _ :: _ => rfl

theorem symbol_ok {s : String} (hs : s.toList ≠ []) (p : Pos) (ts : List TokenTree) :
    symbol s ((Tree.leaf (.symbol s p)).toTokens ++ ts) = .ok (.leaf (.symbol s p), ts) := by
  have hlength : s.length = (operatorTokens p s.toList).length := by rw [length_operatorTokens, String.length_toList]
  have hdrop : (operatorTokens p s.toList ++ ts).drop s.length = ts := by rw [hlength, List.drop_left]
  change symbol s (operatorTokens p s.toList ++ ts) = _
  rw [symbol, bind_get, Ahead.symbol, if_pos (chars_operatorTokens p s.toList ts), hdrop, startOf_operatorTokens p hs]
  rfl

theorem word_ok (w : String) (p : Pos) (ts : List TokenTree) : word w (.ident w p :: ts) = .ok (.leaf (.word w p), ts) := by
  rw [word, bind_get, if_pos (by simp [Ahead.word])]
  rfl

theorem name_ok {n : String} (hn : Ahead.keywords.contains n = false) (p : Pos) (ts : List TokenTree) :
    name (.ident n p :: ts) = .ok (.leaf (.word n p), ts) := by
  rw [name, bind_get, if_pos (by rw [Ahead.name, hn]; rfl)]
  rfl

/-! ### Operands -/

/-- A node that takes no more attributes and is not only passed through. -/
def IsForm (e : Tree) : Prop := e.addAttrs .noAttrs = e ∧ e.kind? ≠ some .verbatimExpr

theorem isForm_node {k : Kind} {as cs : List Tree} (hk : k ≠ .verbatimExpr) : IsForm (.node k (.node .attrs as :: cs)) :=
  ⟨rfl, fun h => hk (Option.some.inj h)⟩

/-- An operand that reads where it stands: what reads on behind it reads the whole. Behind the name of a field,
    parentheses would make a call of a method. -/
def Base (t : Tree) : Prop := ∀ structs rest e rest', After structs rest →
  (Grouping.isNamedField t = true → Ahead.group .paren rest = false) → reach (.trailers t) rest = .ok (e, rest') → IsForm e →
  reach (.unary structs) (t.toTokens ++ rest) = .ok (e, rest')

theorem trailers_calm (h : Calm structs rest) : reach (.trailers t) rest = .ok (t, rest) := by
  rw [reach_eq]
  change trailers reach t rest = _
  rw [trailers, bind_get]
  simp only [h.paren, h.dot, h.bracket, h.question, Bool.false_and, Bool.false_eq_true, if_false]
  rfl

theorem Base.unary (h : Base t) (hform : IsForm t) (hrest : Calm structs rest) :
    reach (.unary structs) (t.toTokens ++ rest) = .ok (t, rest) :=
  h structs rest t rest hrest.toAfter (fun _ => hrest.paren) (trailers_calm hrest) hform

theorem toTokens_node (k : Kind) (cs : List Tree) : (Tree.node k cs).toTokens = cs.flatMap Tree.toTokens := by
  rw [Tree.toTokens]
  induction cs with
  | nil => rfl
  | cons c cs ih => rw [Tree.toTokens.toTokensAll, ih, List.flatMap_cons]

theorem toTokens_group (d : Delimiter) (o c : Pos) (cs : List Tree) :
    (Tree.group d o cs c).toTokens = [.group d o (cs.flatMap Tree.toTokens) c] := by
  rw [Tree.toTokens, ← toTokens_node .list cs]
  rfl

theorem toTokens_noAttrs : Tree.noAttrs.toTokens = [] := rfl

theorem toTokens_word (w : String) (p : Pos) : (Tree.leaf (.word w p)).toTokens = [.ident w p] := rfl

theorem toTokens_symbol (s : String) (p : Pos) : (Tree.leaf (.symbol s p)).toTokens = operatorTokens p s.toList := rfl

theorem toTokens_absent : Tree.absent.toTokens = [] := rfl

theorem toTokens_tokens (ts : List TokenTree) : (Tree.tokens ts).toTokens = ts := by rw [Tree.toTokens]

theorem toTokens_arguments (written : List TokenTree) (read : List Tree) : (Tree.arguments written read).toTokens = written := by
  rw [Tree.toTokens]

/-- Arguments in parentheses as they read. -/
def ReadsAll (args : List Tree) : Prop :=
  commas (reach (.expr true)) (args.flatMap Tree.toTokens) = .ok (.list args, [])

theorem After.group {d : Delimiter} (hd : d ≠ .brace) (o c : Pos) (content ts : List TokenTree) :
    After structs (.group d o content c :: ts) := by
  refine ⟨rfl, rfl, rfl, fun _ => ?_⟩
  cases d
  · rfl
  · rfl
  · exact absurd rfl hd

/-- What reads on behind an operand does so by what it finds there. -/
theorem trailers_eq (base : Tree) (ts : List TokenTree) : reach (.trailers base) ts = trailers reach base ts := by
  rw [reach_eq]
  rfl

section
variable {base callee key : Tree} {args : List Tree} {o c p : Pos} {content : List TokenTree}

theorem trailers_call (hargs : ReadsAll args) (ts : List TokenTree) :
    reach (.trailers base) (.group .paren o (args.flatMap Tree.toTokens) c :: ts) =
      reach (.trailers (.node .callExpr [.noAttrs, base, .group .paren o [.list args] c])) ts := by
  have hparen : Ahead.group .paren (.group .paren o (args.flatMap Tree.toTokens) c :: ts) = true := rfl
  rw [trailers_eq, trailers, bind_get, if_pos hparen, bind_of_ok (group_single hargs)]

theorem trailers_index (hkey : reach (.expr true) key.toTokens = .ok (key, [])) (ts : List TokenTree) :
    reach (.trailers base) (.group .bracket o key.toTokens c :: ts) =
      reach (.trailers (.node .indexExpr [.noAttrs, base, .group .bracket o [key] c])) ts := by
  have hparen : Ahead.group .paren (.group .bracket o key.toTokens c :: ts) = false := rfl
  have hdot : dotAhead (.group .bracket o key.toTokens c :: ts) = false := rfl
  have hbracket : Ahead.group .bracket (.group .bracket o key.toTokens c :: ts) = true := rfl
  rw [trailers_eq, trailers, bind_get, if_neg (by simp [hparen]), if_neg (by simp [hdot]), if_pos hbracket,
    bind_of_ok (group_single hkey)]

theorem trailers_try (hrange : base.kind? ≠ some .rangeExpr) (ts : List TokenTree) :
    reach (.trailers base) ((Tree.leaf (.symbol "?" p)).toTokens ++ ts) =
      reach (.trailers (.node .tryExpr [.noAttrs, base, .leaf (.symbol "?" p)])) ts := by
  have hparen : Ahead.group .paren ((Tree.leaf (.symbol "?" p)).toTokens ++ ts) = false := rfl
  have hdot : dotAhead ((Tree.leaf (.symbol "?" p)).toTokens ++ ts) = false := rfl
  have hbracket : Ahead.group .bracket ((Tree.leaf (.symbol "?" p)).toTokens ++ ts) = false := rfl
  have hquestion : Ahead.symbol "?" ((Tree.leaf (.symbol "?" p)).toTokens ++ ts) = true := rfl
  rw [trailers_eq, trailers, bind_get, if_neg (by simp [hparen]), if_neg (by simp [hdot]), if_neg (by simp [hbracket]),
    if_pos (by simpa [hquestion] using hrange), bind_of_ok (symbol_ok (by decide) p ts)]

/-- A dot, and what is read behind it. -/
theorem trailers_dot (hrange : base.kind? ≠ some .rangeExpr) {w : String} {q : Pos}
    (h : afterDot reach base (.leaf (.symbol "." p)) (.ident w q :: ts) = .ok (t, rest)) :
    reach (.trailers base) ((Tree.leaf (.symbol "." p)).toTokens ++ .ident w q :: ts) = reach (.trailers t) rest := by
  have hparen : Ahead.group .paren ((Tree.leaf (.symbol "." p)).toTokens ++ .ident w q :: ts) = false := rfl
  have hdot : dotAhead ((Tree.leaf (.symbol "." p)).toTokens ++ .ident w q :: ts) = true := rfl
  have hdotted : dotted reach base ((Tree.leaf (.symbol "." p)).toTokens ++ .ident w q :: ts) = .ok (t, rest) := by
    rw [dotted, bind_of_ok (symbol_ok (by decide) p _), bind_get]
    exact h
  rw [trailers_eq, trailers, bind_get, if_neg (by simp [hparen]), if_pos (by simpa [hdot] using hrange),
    bind_of_ok hdotted]

theorem afterDot_await {dot : Tree} {q : Pos} :
    afterDot reach base dot (.ident "await" q :: ts) = .ok (.node .awaitExpr [.noAttrs, base, dot, .leaf (.word "await" q)], ts) :=
  rfl

theorem member_name {n : String} (hn : Ahead.keywords.contains n = false) (q : Pos) (ts : List TokenTree) :
    member (.ident n q :: ts) = .ok (.leaf (.word n q), ts) := by
  rw [member, bind_get, if_pos (by rw [Ahead.name, hn]; rfl)]
  exact name_ok hn q ts

theorem ne_await {n : String} (hn : Ahead.keywords.contains n = false) : n ≠ "await" := by
  rintro rfl
  exact absurd hn (by decide)

theorem afterDot_method {dot : Tree} {n : String} {q : Pos} (hn : Ahead.keywords.contains n = false) (hargs : ReadsAll args) :
    afterDot reach base dot (.ident n q :: .group .paren o (args.flatMap Tree.toTokens) c :: ts) =
      .ok (.node .methodCallExpr [.noAttrs, base, dot, .leaf (.word n q), .absent, .group .paren o [.list args] c], ts) := by
  have hawait : Ahead.word "await" (.ident n q :: .group .paren o (args.flatMap Tree.toTokens) c :: ts) = false := by
    simpa [Ahead.word] using ne_await hn
  rw [afterDot, bind_get, if_neg (by simp [hawait]), bind_of_ok (member_name hn q _), bind_get]
  have hcolons : Ahead.symbol "::" (.group .paren o (args.flatMap Tree.toTokens) c :: ts) = false := rfl
  have hparen : Ahead.group .paren (.group .paren o (args.flatMap Tree.toTokens) c :: ts) = true := rfl
  rw [if_neg (by simp [hcolons]), if_pos (by simp [hparen, isNamed]), bind_of_ok (group_single hargs)]
  rfl

theorem afterDot_field {dot : Tree} {n : String} {q : Pos} (hn : Ahead.keywords.contains n = false)
    (hcolons : Ahead.symbol "::" ts = false) (hparen : Ahead.group .paren ts = false) :
    afterDot reach base dot (.ident n q :: ts) = .ok (.node .fieldExpr [.noAttrs, base, dot, .leaf (.word n q)], ts) := by
  have hawait : Ahead.word "await" (.ident n q :: ts) = false := by simpa [Ahead.word] using ne_await hn
  rw [afterDot, bind_get, if_neg (by simp [hawait]), bind_of_ok (member_name hn q _), bind_get]
  rw [if_neg (by simp [hcolons]), if_neg (by simp [hparen])]
  rfl

end

/-- An operand goes on with what reads on behind it. -/
theorem Base.extend {base t : Tree} (hbase : Base base) (more : List TokenTree) (htokens : t.toTokens = base.toTokens ++ more)
    (hafter : ∀ structs rest, After structs (more ++ rest))
    (hnamed : Grouping.isNamedField base = true → ∀ rest, Ahead.group .paren (more ++ rest) = false)
    (hstep : ∀ structs rest, After structs rest → (Grouping.isNamedField t = true → Ahead.group .paren rest = false) →
      reach (.trailers base) (more ++ rest) = reach (.trailers t) rest) : Base t := by
  intro structs rest e rest' hrest hparen htrailers hform
  rw [htokens, List.append_assoc]
  exact hbase structs _ e rest' (hafter structs rest) (fun h => hnamed h rest) (by rw [hstep structs rest hrest hparen, htrailers]) hform

section
variable {base callee key : Tree} {args : List Tree} {o c p q : Pos}

theorem Base.call (hcallee : Base callee) (hnamed : Grouping.isNamedField callee = false) (hargs : ReadsAll args) :
    Base (.node .callExpr [.noAttrs, callee, .group .paren o [.list args] c]) :=
  hcallee.extend [.group .paren o (args.flatMap Tree.toTokens) c] (by simp [toTokens_node, toTokens_group, toTokens_noAttrs, Tree.list])
    (fun _ _ => .group (by decide) ..) (fun h => by simp [hnamed] at h) fun _ rest _ _ => trailers_call hargs rest

theorem Base.index (hbase : Base base) (hkey : reach (.expr true) key.toTokens = .ok (key, [])) :
    Base (.node .indexExpr [.noAttrs, base, .group .bracket o [key] c]) :=
  hbase.extend [.group .bracket o key.toTokens c] (by simp [toTokens_node, toTokens_group, toTokens_noAttrs]) (fun _ _ => .group (by decide) ..)
    (fun _ _ => rfl) fun _ rest _ _ => trailers_index hkey rest

theorem Base.try_ (hbase : Base base) (hrange : base.kind? ≠ some .rangeExpr) :
    Base (.node .tryExpr [.noAttrs, base, .leaf (.symbol "?" p)]) :=
  hbase.extend ((Tree.leaf (.symbol "?" p)).toTokens) (by simp [toTokens_node, toTokens_noAttrs]) (fun _ _ => ⟨rfl, rfl, rfl, fun _ => rfl⟩)
    (fun _ _ => rfl) fun _ rest _ _ => trailers_try hrange rest

theorem Base.await (hbase : Base base) (hrange : base.kind? ≠ some .rangeExpr) :
    Base (.node .awaitExpr [.noAttrs, base, .leaf (.symbol "." p), .leaf (.word "await" q)]) :=
  hbase.extend ((Tree.leaf (.symbol "." p)).toTokens ++ [.ident "await" q])
    (by simp [toTokens_node, toTokens_noAttrs, toTokens_word]) (fun _ _ => ⟨rfl, rfl, rfl, fun _ => rfl⟩)
    (fun _ _ => rfl) fun _ rest _ _ => by
      rw [List.append_assoc]
      exact trailers_dot hrange afterDot_await

theorem Base.field (hbase : Base base) (hrange : base.kind? ≠ some .rangeExpr) {n : String}
    (hn : Ahead.keywords.contains n = false) :
    Base (.node .fieldExpr [.noAttrs, base, .leaf (.symbol "." p), .leaf (.word n q)]) :=
  hbase.extend ((Tree.leaf (.symbol "." p)).toTokens ++ [.ident n q])
    (by simp [toTokens_node, toTokens_noAttrs, toTokens_word]) (fun _ _ => ⟨rfl, rfl, rfl, fun _ => rfl⟩)
    (fun _ _ => rfl) fun _ rest hrest hparen => by
      rw [List.append_assoc]
      exact trailers_dot hrange (afterDot_field hn hrest.colons (hparen rfl))

theorem Base.method (hbase : Base base) (hrange : base.kind? ≠ some .rangeExpr) {n : String}
    (hn : Ahead.keywords.contains n = false) (hargs : ReadsAll args) :
    Base (.node .methodCallExpr [.noAttrs, base, .leaf (.symbol "." p), .leaf (.word n q), .absent,
      .group .paren o [.list args] c]) :=
  hbase.extend ((Tree.leaf (.symbol "." p)).toTokens ++ [.ident n q, .group .paren o (args.flatMap Tree.toTokens) c])
    (by simp [toTokens_node, toTokens_group, toTokens_noAttrs, toTokens_absent, Tree.list]; rfl) (fun _ _ => ⟨rfl, rfl, rfl, fun _ => rfl⟩)
    (fun _ _ => rfl) fun _ rest _ _ => by
      rw [List.append_assoc]
      exact trailers_dot hrange (afterDot_method hn hargs)

end

/-! ### Atoms -/

theorem outerAttrs_none (h : Ahead.symbol "#" ts = false) : outerAttrs reach ts = .ok (.noAttrs, ts) := by
  have hrepeat : repeatWhile (Ahead.symbol "#") (outerAttr reach) ts = .ok ([], ts) := by
    rw [repeatWhile, bind_get]
    exact repeatFuel_of_not h _
  rw [outerAttrs, bind_of_ok hrepeat]
  rfl

/-- Tokens that start with nothing that is read in front of an operand. -/
structure Bare (ts : List TokenTree) : Prop where
  pound : Ahead.symbol "#" ts = false
  amp : Ahead.symbol "&" ts = false
  star : Ahead.symbol "*" ts = false
  bang : Ahead.symbol "!" ts = false
  minus : Ahead.symbol "-" ts = false

theorem unary_atom (h : Bare ts) {a : Tree} {mid : List TokenTree} (hatom : atom reach structs ts = .ok (a, mid))
    (htrailers : reach (.trailers a) mid = .ok (e, rest)) (hform : IsForm e) :
    reach (.unary structs) ts = .ok (e, rest) := by
  rw [reach_eq]
  change Parse.unary reach structs ts = _
  have hprefix : ["*", "!", "-"].find? (Ahead.symbol · ts) = none := by simp [h.star, h.bang, h.minus]
  rw [Parse.unary, bind_get, bind_of_ok (outerAttrs_none h.pound), bind_get, if_neg (by simp [h.amp]), hprefix]
  dsimp only
  rw [bind_of_ok hatom, bind_of_ok htrailers, if_neg (by simpa using hform.2),
    if_neg (by simp [Tree.noAttrs, Tree.attrList]), hform.1]
  rfl

theorem unary_operator {op : String} (hop : op ∈ ["*", "!", "-"]) {p : Pos} (h : reach (.unary structs) ts = .ok (e, rest)) :
    reach (.unary structs) ((Tree.leaf (.symbol op p)).toTokens ++ ts) = .ok (.node .unaryExpr [.noAttrs, .leaf (.symbol op p), e], rest) := by
  obtain ⟨hpound, hamp, hfind, hne⟩ : Ahead.symbol "#" ((Tree.leaf (.symbol op p)).toTokens ++ ts) = false ∧
      Ahead.symbol "&" ((Tree.leaf (.symbol op p)).toTokens ++ ts) = false ∧
      ["*", "!", "-"].find? (Ahead.symbol · ((Tree.leaf (.symbol op p)).toTokens ++ ts)) = some op ∧ op.toList ≠ [] := by
    simp only [List.mem_cons, List.not_mem_nil, or_false] at hop
    rcases hop with rfl | rfl | rfl <;> exact ⟨rfl, rfl, rfl, by decide⟩
  rw [reach_eq]
  change Parse.unary reach structs _ = _
  rw [Parse.unary, bind_get, bind_of_ok (outerAttrs_none hpound), bind_get, if_neg (by simp [hamp]), hfind]
  dsimp only
  rw [bind_of_ok (symbol_ok hne p ts), bind_of_ok h]
  rfl

theorem unary_reference {p : Pos} (hraw : Ahead.word "raw" ts = false) (hmut : Ahead.word "mut" ts = false)
    (h : reach (.unary structs) ts = .ok (e, rest)) : reach (.unary structs) ((Tree.leaf (.symbol "&" p)).toTokens ++ ts) =
      .ok (.node .referenceExpr [.noAttrs, .leaf (.symbol "&" p), .absent, e], rest) := by
  have hpound : Ahead.symbol "#" ((Tree.leaf (.symbol "&" p)).toTokens ++ ts) = false := rfl
  have hamp : Ahead.symbol "&" ((Tree.leaf (.symbol "&" p)).toTokens ++ ts) = true := rfl
  have hword : word? "mut" ts = .ok (.absent, ts) := whenAhead_not hmut
  rw [reach_eq]
  change Parse.unary reach structs _ = _
  rw [Parse.unary, bind_get, bind_of_ok (outerAttrs_none hpound), bind_get, if_pos hamp, bind_of_ok (symbol_ok (by decide) p ts),
    bind_get, if_neg (by simp [hraw]), bind_of_ok hword, bind_of_ok h]
  rfl

theorem unary_mutable {p q : Pos} (h : reach (.unary structs) ts = .ok (e, rest)) :
    reach (.unary structs) ((Tree.leaf (.symbol "&" p)).toTokens ++ .ident "mut" q :: ts) =
      .ok (.node .referenceExpr [.noAttrs, .leaf (.symbol "&" p), .leaf (.word "mut" q), e], rest) := by
  have hpound : Ahead.symbol "#" ((Tree.leaf (.symbol "&" p)).toTokens ++ .ident "mut" q :: ts) = false := rfl
  have hamp : Ahead.symbol "&" ((Tree.leaf (.symbol "&" p)).toTokens ++ .ident "mut" q :: ts) = true := rfl
  have hraw : (Ahead.word "raw" (.ident "mut" q :: ts) && Ahead.oneOf ["mut", "const"] (List.drop 1 (.ident "mut" q :: ts))) = false :=
    rfl
  have hword : word? "mut" (.ident "mut" q :: ts) = .ok (.leaf (.word "mut" q), ts) := rfl
  rw [reach_eq]
  change Parse.unary reach structs _ = _
  rw [Parse.unary, bind_get, bind_of_ok (outerAttrs_none hpound), bind_get, if_pos hamp, bind_of_ok (symbol_ok (by decide) p _),
    bind_get, if_neg (by rw [hraw]; simp), bind_of_ok hword, bind_of_ok h]
  rfl

/-! ### Literals -/

theorem atom_literal {l : String} {p : Pos} :
    atom reach structs (.literal l p :: ts) = .ok (.node .litExpr [.noAttrs, .leaf (.literal l p)], ts) := by
  rfl

theorem base_literal (l : String) (p : Pos) : Base (.node .litExpr [.noAttrs, .leaf (.literal l p)]) := by
  intro structs rest e rest' _ _ htrailers hform
  exact unary_atom ⟨rfl, rfl, rfl, rfl, rfl⟩ atom_literal htrailers hform

/-! ### Expressions -/

/-- An expression that reads where it stands. -/
def Reads (structs : Bool) (t : Tree) : Prop := ∀ rest, Ends structs rest → reach (.expr structs) (t.toTokens ++ rest) = .ok (t, rest)

/-- Tokens behind which nothing is left to climb. -/
theorem climb_ends {base : Precedence} (h : Ends structs rest) : reach (.climb t structs base) rest = .ok (t, rest) := by
  obtain ⟨hoperator, hassign, hdots, has⟩ : operatorAhead rest = none ∧ assignAhead rest = false ∧
      Ahead.symbol ".." rest = false ∧ Ahead.word "as" rest = false := by
    cases h <;> exact ⟨rfl, rfl, rfl, rfl⟩
  rw [reach_eq]
  change climb reach t structs base rest = _
  rw [climb, bind_get]
  split
  · rfl
  · rw [hoperator]
    dsimp only
    rw [if_neg (by simp [hassign]), if_neg (by simp [hdots]), if_neg (by simp [has])]
    rfl

theorem expr_eq (ts : List TokenTree) :
    reach (.expr structs) ts = (reach (.unary structs) >>= fun e => reach (.climb e structs .jump)) ts := by
  rw [reach_eq]
  rfl

theorem Base.expression (h : Base t) (hform : IsForm t) (structs : Bool) : Reads structs t := by
  intro rest hrest
  rw [expr_eq, bind_of_ok (h.unary hform hrest.calm), climb_ends hrest]

/-! ### Arguments -/

/-- Expressions with commas between them. -/
inductive Separated : List Tree → Prop where
  | nil : Separated []
  | last {t : Tree} (ht : Reads true t) (hne : t.toTokens ≠ []) : Separated [t]
  | cons {t : Tree} {p : Pos} {ts : List Tree} (ht : Reads true t) (hne : t.toTokens ≠ []) (h : Separated ts) :
      Separated (t :: .leaf (.symbol "," p) :: ts)

theorem Separated.readsFuel {args : List Tree} (h : Separated args) {n : Nat} (hn : args.length ≤ n) :
    separatedFuel atEnd "," (reach (.expr true)) (n + 1) (args.flatMap Tree.toTokens) = .ok (args, []) := by
  have hend : atEnd [] = true := rfl
  induction h generalizing n with
  | nil => rfl
  | @last t ht hne =>
    have htokens : [t].flatMap Tree.toTokens = t.toTokens ++ [] := by simp
    rw [htokens, separatedFuel, bind_get, if_neg (by simpa [atEnd] using hne), bind_of_ok (ht [] .nothing), bind_get,
      if_pos hend]
    rfl
  | @cons t p ts ht hne h ih =>
    obtain ⟨n, rfl⟩ : ∃ k, n = k + 1 := ⟨n - 1, by simp at hn; omega⟩
    have htokens : (t :: .leaf (.symbol "," p) :: ts).flatMap Tree.toTokens =
        t.toTokens ++ ((Tree.leaf (.symbol "," p)).toTokens ++ ts.flatMap Tree.toTokens) := by simp
    have hcomma : atEnd ((Tree.leaf (.symbol "," p)).toTokens ++ ts.flatMap Tree.toTokens) = false := rfl
    have hread := ht ((Tree.leaf (.symbol "," p)).toTokens ++ ts.flatMap Tree.toTokens) (.comma ..)
    rw [htokens, separatedFuel, bind_get, if_neg (by simp [atEnd, hne]), bind_of_ok hread, bind_get, if_neg (by simp [hcomma]), bind_of_ok (symbol_ok (by decide) p _), bind_of_ok (ih (by simp at hn; omega))]
    rfl

theorem Separated.length_le {args : List Tree} (h : Separated args) : args.length ≤ (args.flatMap Tree.toTokens).length := by
  induction h with
  | nil => exact Nat.le_refl _
  | last ht hne =>
    have := List.length_pos_iff.mpr hne
    simp only [List.flatMap_cons, List.flatMap_nil, List.append_nil, List.length_singleton]
    omega
  | @cons t p ts ht hne h ih =>
    have := List.length_pos_iff.mpr hne
    have hcomma : (Tree.leaf (.symbol "," p)).toTokens.length = 1 := rfl
    simp only [List.flatMap_cons, List.length_append, List.length_cons]
    omega

theorem Separated.readsAll {args : List Tree} (h : Separated args) : ReadsAll args := by
  rw [ReadsAll, commas, separated, bind_get, bind_of_ok (h.readsFuel h.length_le)]
  rfl

/-! ### Parentheses and blocks -/

theorem atom_paren {o c : Pos} {content : List TokenTree} :
    atom reach structs (.group .paren o content c :: ts) = parenExpr reach (.group .paren o content c :: ts) := rfl

theorem atom_brace {o c : Pos} {content : List TokenTree} : atom reach structs (.group .brace o content c :: ts) =
    (do return .node .blockExpr [.noAttrs, .absent, ← reach (.block true)] : Parser Tree) (.group .brace o content c :: ts) := rfl

theorem base_paren {o c : Pos} {t : Tree} (ht : Reads true t) (hne : t.toTokens ≠ []) :
    Base (.node .parenExpr [.noAttrs, .group .paren o [t] c]) := by
  intro structs rest e rest' _ _ htrailers hform
  have htokens : (Tree.node .parenExpr [.noAttrs, .group .paren o [t] c]).toTokens ++ rest = .group .paren o t.toTokens c :: rest := by
    simp [toTokens_node, toTokens_group, toTokens_noAttrs]
  have hread : commas (reach (.expr true)) t.toTokens = .ok (.list [t], []) := by simpa [ReadsAll] using (Separated.last ht hne).readsAll
  have hatom : atom reach structs (.group .paren o t.toTokens c :: rest) =
      .ok (.node .parenExpr [.noAttrs, .group .paren o [t] c], rest) := by
    rw [atom_paren, parenExpr, bind_get]
    have hset : (set rest : Parser PUnit) (.group .paren o t.toTokens c :: rest) = .ok ((), rest) := rfl
    exact (bind_of_ok hset).trans ((bind_of_ok (within_ok hread)).trans rfl)
  rw [htokens]
  exact unary_atom ⟨rfl, rfl, rfl, rfl, rfl⟩ hatom htrailers hform

end CallProbe.Source.Parse
